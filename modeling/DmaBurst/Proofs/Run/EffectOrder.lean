import DmaBurst.Proofs.Run.Account
import DmaBurst.Proofs.Run.Settle

namespace DmaBurst

namespace Receive

variable {σ η : Type} [ByteSink σ]

section Order

/-- The effects of a run in order. They add up to the journal of the card and to what has become of
the sinks. Sinks are called after all of the setup, and flushed if every worker has returned a
report. -/
structure InOrder (c : Config) (sinks : List σ) (card : Card) (log : List Effect)
    (answer : Except (Halt RunError) RunReport) (sinks' : List σ) (card' : Card) : Prop where
  journal_eq : card'.journal = card.journal ++ log.filterMap Effect.event?
  length_eq : sinks'.length = sinks.length
  of_call : ∀ {i call}, .call i call ∈ log → i < sinks.length
  calls : ∀ {i : Nat} {s s' : σ}, sinks[i]? = some s → sinks'[i]? = some s' →
    Calls s (log.filterMap (Effect.callOn? i)) s'
  sorted : InPhases log
  prepared : ∀ {i call}, .call i call ∈ log →
    (Session.plan .rx c.rx.queueCount (reset? c) card).map .entry <+: log
  unflushed : ∀ j < c.rx.queueCount, (∀ report, .ended j (.ok report) ∉ log) →
    log.filterMap Effect.flush? = []
  flushed : 0 < c.rx.queueCount →
    (∀ j < c.rx.queueCount, ∃ report, .ended j (.ok report) ∈ log) →
    (log.filterMap Effect.flush? = (List.range c.rx.queueCount).map (fun i => (i, .ok ())) ∧
      ∃ report, answer = .ok report) ∨
    ∃ i < c.rx.queueCount, ∃ e,
      log.filterMap Effect.flush? = (List.range i).map (fun i => (i, .ok ())) ++ [(i, .error e)] ∧
      answer = .error (e.map fun cause => .worker (.sink ⟨.rx, i⟩ cause))

theorem eq_reset_of_mem (c : Config) : ∀ r ∈ reset? c, r = c.rx.reset := by
  intro r hr
  rw [reset?] at hr
  split at hr
  · exact (Option.mem_some_iff.mp hr).symm
  · cases hr

variable {c : Config} {sinks sinks' : List σ} {card card' : Card}
  {answer : Except (Halt RunError) RunReport}

theorem inOrder_of_entries {events : List Event} (hj : card'.journal = card.journal ++ events)
    (hsorted : InPhases (events.map .entry)) :
    InOrder c sinks card (events.map .entry) answer sinks card' where
  journal_eq := by rw [Effect.events_entries, hj]
  length_eq := rfl
  of_call hcall := by simp at hcall
  calls {i s s'} hs hs' := by
    cases hs.symm.trans hs'
    rw [Effect.callsOn_entries]
    exact .nil
  sorted := hsorted
  prepared hcall := by simp at hcall
  unflushed _ _ _ := Effect.flushes_entries events
  flushed hpos hended := by
    obtain ⟨report, hmem⟩ := hended 0 hpos
    simp at hmem

theorem inPhases_of_balanced {got : Nat} {events : List Event}
    (hbalanced : Session.Balanced c .rx c.rx.queueCount got (reset? c) card card')
    (hj : card'.journal = card.journal ++ events) : InPhases (events.map .entry) := by
  obtain ⟨front, hpre, hj', -⟩ := hbalanced
  rw [hj, List.append_assoc] at hj'
  rw [List.append_cancel_left hj', List.map_append]
  have hfront : ∀ e ∈ front.map Effect.entry, e.phase = 0 :=
    Effect.phase_of_mem_plan (hpre.subset)
  have hundone := Effect.phase_of_mem_undo front
  exact .append 0 (.of_eq hfront) (.of_eq hundone) (fun e he => (hfront e he).le)
    fun e _ => Nat.zero_le e.phase

variable {ws : List (RxWorker σ)} {scene : Scene} {told flushes : List Effect}
  {t : Threads (RxWorker σ) Scene}

theorem Closing.of_mem (h : Closing t flushes answer sinks') :
    ∀ e ∈ flushes, ∃ i < t.stations.length, ∃ answer, e = .call i (.flush answer) := by
  cases h with
  | failed => exact fun _ he => absurd he List.not_mem_nil
  | settled _ hf =>
    intro e he
    obtain ⟨k, hk, answer, rfl⟩ := hf.of_mem e he
    rw [List.length_map] at hk
    exact ⟨k, hk, answer, by rw [Nat.zero_add]⟩

theorem Closing.length_eq (h : Closing t flushes answer sinks') :
    sinks'.length = t.stations.length := by
  cases h with
  | failed => exact List.length_map _
  | settled _ hf => exact hf.length_eq.trans (List.length_map _)

theorem Closing.calls (h : Closing t flushes answer sinks') {i : Nat} {s : Station (RxWorker σ)}
    {s' : σ} (hs : t.stations[i]? = some s) (hs' : sinks'[i]? = some s') :
    Calls s.worker.sink (flushes.filterMap (Effect.callOn? i)) s' := by
  have hsink : (t.stations.map (·.worker.sink))[i]? = some s.worker.sink := by
    rw [List.getElem?_map, hs]
    rfl
  cases h with
  | failed =>
    cases hsink.symm.trans hs'
    exact .nil
  | settled _ hf =>
    have hcalls := hf.calls hsink hs'
    rwa [Nat.zero_add] at hcalls

theorem Closing.flushes_eq_nil (h : Closing t flushes answer sinks')
    (htold : Accounted ws scene told t) {j : Nat} (hj : j < t.stations.length)
    (hended : ∀ report, .ended j (.ok report) ∉ told) : flushes = [] := by
  cases h with
  | failed => rfl
  | settled hok =>
    have hs := List.getElem?_eq_getElem hj
    obtain ⟨report, hreport⟩ := hok _ (List.mem_of_getElem? hs)
    exact absurd ((htold.ended_mem_iff hs _).mpr hreport) (hended report)

theorem Closing.flushed (h : Closing t flushes answer sinks') (htold : Accounted ws scene told t)
    (hended : ∀ j < t.stations.length, ∃ report, .ended j (.ok report) ∈ told) :
    (flushes.filterMap Effect.flush? =
        (List.range t.stations.length).map (fun i => (i, .ok ())) ∧
      ∃ report, answer = .ok report) ∨
    ∃ i < t.stations.length, ∃ e,
      flushes.filterMap Effect.flush? =
        (List.range i).map (fun i => (i, .ok ())) ++ [(i, .error e)] ∧
      answer = .error (e.map fun cause => .worker (.sink ⟨.rx, i⟩ cause)) := by
  simp only [List.range_eq_range']
  cases h with
  | failed hnot =>
    refine absurd (fun s hs => ?_) hnot
    obtain ⟨j, hj⟩ := List.mem_iff_getElem?.mp hs
    obtain ⟨report, hmem⟩ := hended j (List.getElem?_eq_some_iff.mp hj).1
    exact ⟨report, (htold.ended_mem_iff hj _).mp hmem⟩
  | @settled _ flushed reports _ _ hf =>
    rcases hf.verdict with ⟨rfl, hall⟩ | ⟨k, hk, e, rfl, hfront⟩
    · rw [List.length_map] at hall
      exact .inl ⟨hall, _, rfl⟩
    · rw [List.length_map] at hk
      rw [Nat.zero_add] at hfront ⊢
      exact .inr ⟨k, hk, e, hfront, rfl⟩

omit [ByteSink σ] in
theorem index_workers {queues : List Queue} {budgets : List Int} {count : Nat}
    (hq : queues.map Queue.standing = (Session.queueIds .rx count).map .ofStarted) {i : Nat}
    {w : RxWorker σ} (hw : (workers c queues sinks budgets)[i]? = some w) :
    w.queue.channel.id.index = i := by
  obtain ⟨q, s, b, hqi, -, -, rfl⟩ := getElem?_workers hw
  have hids : queues.map (·.channel.id) = Session.queueIds .rx count := by
    have hid := congrArg (List.map Standing.id) hq
    rw [List.map_map, List.map_map] at hid
    exact hid.trans (List.map_id _)
  have hid : (Session.queueIds .rx count)[i]? = some q.channel.id := by
    rw [← hids, List.getElem?_map, hqi]
    rfl
  rw [Session.queueIds, List.getElem?_map] at hid
  obtain ⟨k, hk, hmk⟩ := Option.map_eq_some_iff.mp hid
  obtain ⟨_, hrange⟩ := List.getElem?_eq_some_iff.mp hk
  rw [List.getElem_range] at hrange
  rw [← hmk, hrange]

theorem Accounted.map_standing (h : Accounted ws scene told t) :
    (t.stations.map (·.worker.queue)).map Queue.standing =
      (ws.map RxWorker.queue).map Queue.standing := by
  refine List.ext_getElem? fun i => ?_
  simp only [List.getElem?_map]
  cases hs : t.stations[i]? with
  | none =>
    rw [List.getElem?_eq_none_iff, h.length_eq, ← List.getElem?_eq_none_iff] at hs
    rw [hs]
    rfl
  | some s =>
    have hlt := (List.getElem?_eq_some_iff.mp hs).1
    have hw := List.getElem?_eq_getElem (h.length_eq ▸ hlt)
    rw [hw]
    exact congrArg some (h.standing_eq hs hw)

theorem journal_of_driven {s : Session} {card₁ : Card} {budgets : List Int}
    (hc : c.validate = .ok ()) (hlen : sinks.length = c.rx.queueCount)
    (hs : Session.setup c.device .rx c.rx.queueCount (reset? c) card = (.ok s, card₁))
    (hb : c.rx.budgets = .ok budgets) (hscene : scene.card = s.pulse c.rx.reset card₁)
    (htold : Accounted (workers c s.queues sinks budgets) scene told t) :
    t.stations.length = sinks.length ∧
      t.card.card.journal = card.journal ++ Session.plan .rx c.rx.queueCount (reset? c) card ∧
      (Session.teardown { s with queues := t.stations.map (·.worker.queue) } t.card.card).journal =
        t.card.card.journal ++ Event.undo (Session.plan .rx c.rx.queueCount (reset? c) card) := by
  obtain ⟨hcomp, hqs, hjs, -⟩ :=
    (Session.setup_standing c.device .rx c.rx.queueCount (reset? c) card).2 s (congrArg Prod.fst hs)
  rw [hs] at hjs
  have hcount : s.queues.length = c.rx.queueCount := Session.length_queues hqs
  have hbudgets : budgets.length = c.rx.queueCount := Card.length_of_mapM_eq_ok hb
  have hstanding := htold.map_standing
  rw [map_queue_workers (hlen.trans hcount.symm) (hbudgets.trans hcount.symm)] at hstanding
  have hpulse := (htold.journal_eq.trans (congrArg Card.journal hscene)).trans
    (Session.pulse_journal hcomp (eq_reset_of_mem c) card₁)
  have hbegun : t.card.card.journal =
      card.journal ++ Session.plan .rx c.rx.queueCount (reset? c) card := by
    rw [hpulse, hjs, Session.plan_eq, List.append_assoc]
  obtain ⟨_, -, hundone, -, hall⟩ := Session.balanced_of_setup_ok hc hlen hs
    (t := { s with queues := t.stations.map (·.worker.queue) }) rfl hstanding hpulse
  rw [hall hc hlen ⟨s, congrArg Prod.fst hs⟩, ← hbegun] at hundone
  refine ⟨?_, hbegun, hundone⟩
  have hlength := congrArg List.length hstanding
  simp only [List.length_map] at hlength
  rw [hlength, hcount, hlen]

theorem inParts_of_driven (c : Config) (card : Card) (htold : Accounted ws scene told t)
    (hclose : Closing t flushes answer sinks') :
    InParts ((Session.plan .rx c.rx.queueCount (reset? c) card).map .entry) told flushes
      ((Event.undo (Session.plan .rx c.rx.queueCount (reset? c) card)).map .entry) := by
  refine ⟨Effect.phase_of_mem_plan (List.Subset.refl _), fun e he => ?_, fun e he => ?_,
    Effect.phase_of_mem_undo _⟩
  · obtain ⟨i, -, hi⟩ := htold.of_mem e he
    exact Effect.phase_eq_one hi
  · obtain ⟨i, -, answer, rfl⟩ := hclose.of_mem e he
    rfl

theorem inOrder_of_driven {s : Session} {card₁ : Card} {budgets : List Int}
    (hc : c.validate = .ok ()) (hlen : sinks.length = c.rx.queueCount)
    (hs : Session.setup c.device .rx c.rx.queueCount (reset? c) card = (.ok s, card₁))
    (hb : c.rx.budgets = .ok budgets) (hscene : scene.card = s.pulse c.rx.reset card₁)
    (htold : Accounted (workers c s.queues sinks budgets) scene told t)
    (hclose : Closing t flushes answer sinks') :
    InOrder c sinks card
      ((Session.plan .rx c.rx.queueCount (reset? c) card).map .entry ++ told ++ flushes ++
        (Event.undo (Session.plan .rx c.rx.queueCount (reset? c) card)).map .entry)
      answer sinks' (Session.teardown { s with queues := t.stations.map (·.worker.queue) }
        t.card.card) := by
  obtain ⟨hcount, hbegun, hundone⟩ := journal_of_driven hc hlen hs hb hscene htold
  have hparts := inParts_of_driven c card htold hclose
  refine ⟨?_, hclose.length_eq.trans hcount, fun hcall => ?_, fun {i s₀ s'} hs₀ hs' => ?_,
    hparts.sorted, fun _ => ?_, fun j hlt hended => ?_, fun _ hended => ?_⟩
  · rw [hparts.events_eq, Effect.events_entries, Effect.events_entries, hundone, hbegun,
      List.append_assoc]
  · simp only [List.mem_append] at hcall
    rcases hcall with ((hcall | hcall) | hcall) | hcall
    -- Of the four parts only the workers' and the flushes hold calls.
    · simp at hcall
    · obtain ⟨j, hj, hworker⟩ := htold.of_mem _ hcall
      rw [← Effect.eq_of_worker? hworker, ← hcount, htold.length_eq]
      exact hj
    · obtain ⟨j, hj, answer, he⟩ := hclose.of_mem _ hcall
      cases he
      exact hcount ▸ hj
    · simp at hcall
  · have hqueues : s.queues.length = sinks.length :=
      (Session.length_queues ((Session.setup_standing c.device .rx c.rx.queueCount (reset? c)
        card).2 s (congrArg Prod.fst hs)).2.1).trans hlen.symm
    rw [← map_sink_workers (c := c) hqueues ((Card.length_of_mapM_eq_ok hb).trans hlen.symm),
      List.getElem?_map] at hs₀
    obtain ⟨w, hw, rfl⟩ := Option.map_eq_some_iff.mp hs₀
    have hlt := (List.getElem?_eq_some_iff.mp hw).1
    have hst := List.getElem?_eq_getElem (htold.length_eq.symm ▸ hlt)
    rw [List.filterMap_append, List.filterMap_append, List.filterMap_append, Effect.callsOn_entries,
      Effect.callsOn_entries, List.nil_append, List.append_nil]
    exact (htold.calls hst hw).append (hclose.calls hst hs')
  · rw [List.append_assoc, List.append_assoc]
    exact List.prefix_append _ _
  · simp only [hparts.ended_mem_iff] at hended
    rw [hparts.flushes_eq, hclose.flushes_eq_nil htold (hcount.trans hlen ▸ hlt) hended]
    rfl
  · simp only [hparts.ended_mem_iff] at hended
    rw [hparts.flushes_eq, ← hlen, ← hcount]
    exact hclose.flushed htold (hcount.trans hlen ▸ hended)

omit [ByteSink σ] in
theorem inPhases_of_setup_ok {s : Session} {card₁ : Card} {events : List Event}
    (hc : c.validate = .ok ()) (hlen : sinks.length = c.rx.queueCount)
    (hs : Session.setup c.device .rx c.rx.queueCount (reset? c) card = (.ok s, card₁))
    (hj : (s.teardown (s.pulse c.rx.reset card₁)).journal = card.journal ++ events) :
    InPhases (events.map .entry) := by
  obtain ⟨hcomp, -⟩ := (Session.setup_standing c.device .rx c.rx.queueCount (reset? c) card).2 _
    (congrArg Prod.fst hs)
  have hpulsed := Session.pulse_journal hcomp (eq_reset_of_mem c) card₁
  exact inPhases_of_balanced (Session.balanced_of_setup_ok hc hlen hs rfl rfl hpulsed) hj

/-- After a setup that succeeds: what comes of the workers, and the undoing of the setup. -/
theorem inOrder_driveBy {work : Work σ η Scene} (hwork : work.Stepped c.schedule) {h h' : η}
    {s s' : Session} {card₁ : Card} (hc : c.validate = .ok ())
    (hlen : sinks.length = c.rx.queueCount)
    (hs : Session.setup c.device .rx c.rx.queueCount (reset? c) card = (.ok s, card₁))
    (hdrive : driveBy work c sinks s h ⟨s.pulse c.rx.reset card₁,
      (Session.plan .rx c.rx.queueCount (reset? c) card).map .entry⟩ =
        (answer, sinks', s', h', scene)) :
    InOrder c sinks card (Ground.onCard (fun card => ((), s'.teardown card)) scene).2.log answer
      sinks' (Ground.onCard (fun card => ((), s'.teardown card)) scene).2.card := by
  obtain ⟨hcomp, hqs, hjs, -⟩ :=
    (Session.setup_standing c.device .rx c.rx.queueCount (reset? c) card).2 s (congrArg Prod.fst hs)
  cases hb : c.rx.budgets with
  | error f =>
    rw [driveBy, hb] at hdrive
    cases hdrive
    rw [hs] at hjs
    have hpulse := Session.pulse_journal hcomp (eq_reset_of_mem c) card₁
    rw [hjs, List.append_assoc, ← Session.plan_eq] at hpulse
    have hundone := s.teardown_journal (s.pulse c.rx.reset card₁)
    rw [Scene.onCard_snd hundone, ← List.map_append]
    rw [hpulse, List.append_assoc] at hundone
    exact inOrder_of_entries hundone (inPhases_of_setup_ok hc hlen hs hundone)
  | ok budgets =>
    obtain ⟨t, told, flushes, answer, sinks', h', hrun, htold, hclose⟩ :=
      log_driveBy hwork hb sinks s (index_workers hqs) h _
    rw [hrun] at hdrive
    cases hdrive
    obtain ⟨-, -, hundone⟩ := journal_of_driven hc hlen hs hb rfl htold
    rw [Scene.onCard_snd hundone]
    exact inOrder_of_driven hc hlen hs hb rfl htold hclose

/-- Whatever a run does is in order on the record of it, if its workers are stepped. -/
theorem inOrder_runBy {work : Work σ η Scene} (hwork : work.Stepped c.schedule) {h h' : η}
    (hrun : runBy work c sinks h ⟨card, []⟩ = (answer, sinks', h', scene)) :
    InOrder c sinks card scene.log answer sinks' scene.card := by
  have hnothing : InOrder c sinks card [] answer sinks card :=
    inOrder_of_entries (List.append_nil _).symm .nil
  rw [runBy] at hrun
  cases hc : c.validate with
  | error e =>
    rw [hc] at hrun
    cases hrun
    exact hnothing
  | ok done =>
    rw [hc] at hrun
    dsimp only at hrun
    by_cases hlen : sinks.length = c.rx.queueCount
    · rw [if_neg (not_not.mpr hlen), ← reset?] at hrun
      obtain ⟨hfail, hok⟩ := Session.setup_standing c.device .rx c.rx.queueCount (reset? c) card
      rcases hs : Session.setup c.device .rx c.rx.queueCount (reset? c) card with ⟨e | s, card₁⟩
      · rw [hs] at hfail
        obtain ⟨events, -, hj, -⟩ := hfail e rfl
        rw [List.append_assoc] at hj
        rw [Scene.onCard_eq hs hj] at hrun
        cases hrun
        exact inOrder_of_entries hj
          (inPhases_of_balanced (Session.balanced_of_setup_error hc hlen hs) hj)
      · rw [hs] at hok
        obtain ⟨hcomp, -, hjs, -⟩ := hok s rfl
        have hpulse := Session.pulse_journal hcomp (eq_reset_of_mem c) card₁
        rw [Scene.onCard_eq hs hjs] at hrun
        dsimp only at hrun
        rw [Scene.onCard_snd (f := s.pulse c.rx.reset) hpulse, List.nil_append,
          ← List.map_append, ← Session.plan_eq] at hrun
        rcases hdrive : driveBy work c sinks s h ⟨s.pulse c.rx.reset card₁,
            (Session.plan .rx c.rx.queueCount (reset? c) card).map .entry⟩ with
          ⟨answer, sinks', s', h', scene⟩
        rw [hdrive] at hrun
        cases hrun
        exact inOrder_driveBy hwork hc hlen hs hdrive
    · rw [if_pos hlen] at hrun
      cases hrun
      exact hnothing

omit [ByteSink σ] in
theorem eq_none_of_worker? {a : Effect} {i : Nat} (ha : a.worker? = some i) :
    a.event? = none ∧ a.flush? = none := by
  have hphase := Effect.phase_eq_one ha
  refine ⟨Effect.event?_eq_none ?_, Effect.flush?_eq_none ?_⟩
  · rw [hphase]
    decide
  · rw [hphase]
    decide

theorem InOrder.swap {front back : List Effect} {a b : Effect} {i j : Nat}
    (ha : a.worker? = some i) (hb : b.worker? = some j) (hij : i ≠ j)
    (h : InOrder c sinks card (front ++ a :: b :: back) answer sinks' card') :
    InOrder c sinks card (front ++ b :: a :: back) answer sinks' card' := by
  obtain ⟨hevent, hflush⟩ := eq_none_of_worker? ha
  have hcalls : ∀ k, a.callOn? k = none ∨ b.callOn? k = none := by
    intro k
    by_cases hk : i = k
    · exact .inr (Effect.callOn?_eq_none hb (hk ▸ hij.symm))
    · exact .inl (Effect.callOn?_eq_none ha hk)
  refine ⟨?_, h.length_eq, fun hcall => h.of_call (mem_swap.mp hcall), fun {k} _ _ hs hs' => ?_,
    h.sorted.swap ha hb, fun hcall => entries_prefix_swap ha (h.prepared (mem_swap.mp hcall)),
    fun k hk hended => ?_, fun hpos hended => ?_⟩
  · rw [filterMap_swap (.inl hevent)]
    exact h.journal_eq
  · rw [filterMap_swap (hcalls k)]
    exact h.calls hs hs'
  · rw [filterMap_swap (.inl hflush)]
    exact h.unflushed k hk fun report hmem => hended report (mem_swap.mpr hmem)
  · rw [filterMap_swap (.inl hflush)]
    refine h.flushed hpos fun k hk => ?_
    obtain ⟨report, hmem⟩ := hended k hk
    exact ⟨report, mem_swap.mp hmem⟩

/-- The order stands, however what the workers do is interleaved. -/
theorem InOrder.shuffled {log log' : List Effect} (h : InOrder c sinks card log answer sinks' card')
    (hlog : Shuffled log log') : InOrder c sinks card log' answer sinks' card' := by
  induction hlog with
  | refl => exact h
  | swap _ ha hb hij ih => exact ih.swap ha hb hij

end Order

end Receive

open Receive

/-- A receive run leaves its effects in order in the log of a scene, and does without a log what it
does with one. The same holds of the workers' polls in any other order, with what the workers do in
them interleaved in any way. -/
theorem receive_effects_ordered {σ η : Type} [ByteSink σ] [Hardware η] [LawfulHardware η]
    (c : Config) (shutdown : Bool) (sinks : List σ) (h : η) (card : Card) :
    (∃ answer sinks' h' scene,
      Receive.run c shutdown sinks h (Scene.mk card []) = (answer, sinks', h', scene) ∧
      Receive.run c shutdown sinks h card = (answer, sinks', h', scene.card) ∧
      InOrder c sinks card scene.log answer sinks' scene.card) ∧
    ∀ row : List ThreadStep,
      (∀ act, .hardware act ∈ row → ∀ card, (act card).journal = card.journal) →
      ∃ answer sinks' scene,
        runBy (Threads.along c.schedule row) c sinks () (Scene.mk card []) =
          (answer, sinks', (), scene) ∧
        runBy (Threads.along c.schedule row) c sinks () card = (answer, sinks', (), scene.card) ∧
        ∀ log, Shuffled scene.log log → InOrder c sinks card log answer sinks' scene.card := by
  constructor
  · have herased := runBy_card (erases_run c.schedule shutdown) c sinks h (Scene.mk card [])
    rcases hrun : Receive.run c shutdown sinks h (Scene.mk card []) with ⟨answer, sinks', h', scene⟩
    rw [← Receive.run, ← Receive.run, hrun] at herased
    exact ⟨answer, sinks', h', scene, rfl, herased,
      inOrder_runBy (stepped_run c.schedule shutdown) hrun⟩
  · intro row hquiet
    have herased := runBy_card (erases_along c.schedule row) c sinks () (Scene.mk card [])
    rcases hrun : runBy (Threads.along c.schedule row) c sinks () (Scene.mk card [])
      with ⟨answer, sinks', ⟨⟩, scene⟩
    rw [hrun] at herased
    exact ⟨answer, sinks', scene, rfl, herased, fun log hlog =>
      (inOrder_runBy (stepped_along c.schedule hquiet) hrun).shuffled hlog⟩

def unflushable : List ScriptedSink :=
  [{}, { flushFails := true }]

def pairBegun : List Effect :=
  [.entry .deviceOpened, .entry (.componentOpened 0x8000), .entry (.queueOpened ⟨.rx, 0⟩),
    .entry (.queueOpened ⟨.rx, 1⟩), .entry (.queueStarted ⟨.rx, 0⟩),
    .entry (.queueStarted ⟨.rx, 1⟩), .entry (.registerWrite 0x8000 0 1)]

def pairWrites : List Effect :=
  [.call 0 (.write [1] (.wrote 1)), .call 1 (.write [2] (.wrote 1))]

def unflushedLog (writes : List Effect) : List Effect :=
  pairBegun ++ writes ++
  [.ended 0 (.ok ⟨⟨.rx, 0⟩, .complete, 1, 0, 1, ⟨1, 1, 0, 0, 1, 1⟩⟩),
    .ended 1 (.ok ⟨⟨.rx, 1⟩, .complete, 1, 0, 1, ⟨1, 1, 0, 0, 1, 1⟩⟩),
    .call 0 (.flush (.ok ())), .call 1 (.flush (.error (.refused (.other "flush refused")))),
    .entry (.queueStopped ⟨.rx, 1⟩), .entry (.queueStopped ⟨.rx, 0⟩),
    .entry (.queueClosed ⟨.rx, 1⟩), .entry (.queueClosed ⟨.rx, 0⟩),
    .entry (.componentClosed 0x8000), .entry .deviceClosed]

/-- The threads write the other way round, and what they write comes to the log in between. -/
theorem unflushable_ordered :
    LawfulHardware Unit ∧ ∃ card₀ card sinks' sinks'' scene scene',
      Card.create frailSpec = .ok card₀ ∧
      ((card₀.push ⟨.rx, 0⟩ [1] [] 0).2.push ⟨.rx, 1⟩ [2] [] 0).2 = card ∧
      Receive.run (frailConfig .threadPerQueue) false unflushable () card =
        (.error (.refused (.worker (.sink ⟨.rx, 1⟩ (.other "flush refused")))), sinks', (),
          Scene.card scene) ∧
      scene.log = unflushedLog pairWrites ∧
      InOrder (frailConfig .threadPerQueue) unflushable card scene.log
        (.error (.refused (.worker (.sink ⟨.rx, 1⟩ (.other "flush refused"))))) sinks'
        scene.card ∧
      runBy (Threads.along .threadPerQueue [.poll 1, .poll 0, .poll 0, .poll 1])
        (frailConfig .threadPerQueue) unflushable () (Scene.mk card []) =
        (.error (.refused (.worker (.sink ⟨.rx, 1⟩ (.other "flush refused")))), sinks'', (),
          scene') ∧
      scene'.log = unflushedLog pairWrites.reverse ∧
      InOrder (frailConfig .threadPerQueue) unflushable card (unflushedLog pairWrites)
        (.error (.refused (.worker (.sink ⟨.rx, 1⟩ (.other "flush refused"))))) sinks''
        scene'.card := by
  have hcreate : Card.create frailSpec = .ok _ := rfl
  let card := (((Card.create frailSpec).toOption.get rfl).push ⟨.rx, 0⟩ [1] [] 0).2.push ⟨.rx, 1⟩
    [2] [] 0 |>.2
  obtain ⟨⟨answer, sinks', h', scene, hscene, hrun, hordered⟩, hrows⟩ :=
    receive_effects_ordered (frailConfig .threadPerQueue) false unflushable () card
  obtain ⟨answer', sinks'', scene', hscene', -, hshuffled⟩ :=
    hrows [.poll 1, .poll 0, .poll 0, .poll 1] (by simp)
  have hrefused : (Receive.run (frailConfig .threadPerQueue) false unflushable () card).1 =
      .error (.refused (.worker (.sink ⟨.rx, 1⟩ (.other "flush refused")))) := by cbv
  have hlog : (Receive.run (frailConfig .threadPerQueue) false unflushable ()
      (Scene.mk card [])).2.2.2.log = unflushedLog pairWrites := by cbv
  have hrefused' : (runBy (Threads.along .threadPerQueue [.poll 1, .poll 0, .poll 0, .poll 1])
      (frailConfig .threadPerQueue) unflushable () (Scene.mk card [])).1 =
      .error (.refused (.worker (.sink ⟨.rx, 1⟩ (.other "flush refused")))) := by cbv
  have hlog' : (runBy (Threads.along .threadPerQueue [.poll 1, .poll 0, .poll 0, .poll 1])
      (frailConfig .threadPerQueue) unflushable () (Scene.mk card [])).2.2.2.log =
      unflushedLog pairWrites.reverse := by cbv
  have hschedule : (frailConfig .threadPerQueue).schedule = .threadPerQueue := rfl
  rw [hrun] at hrefused
  rw [hscene] at hlog
  rw [hschedule] at hscene'
  rw [hscene'] at hrefused' hlog'
  obtain rfl : answer = _ := hrefused
  obtain rfl : answer' = _ := hrefused'
  dsimp only at hlog hlog'
  have hswap : Shuffled scene'.log (unflushedLog pairWrites) := by
    have hrefl : Shuffled scene'.log scene'.log := .refl
    nth_rewrite 2 [hlog'] at hrefl
    exact @Shuffled.swap _ pairBegun _ _ _ _ _ hrefl rfl rfl (by decide)
  exact ⟨inferInstance, _, card, sinks', sinks'', scene, scene', hcreate, rfl, hrun, hlog,
    hordered, hscene', hlog', hshuffled _ hswap⟩

end DmaBurst
