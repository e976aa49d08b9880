import DmaBurst.Proofs.Run.Interleaving
import DmaBurst.Proofs.Run.Journal

namespace DmaBurst.Receive

variable {σ η : Type} {c : Config} {queues : List Queue} {sinks : List σ} {budgets : List Int}

theorem getElem?_workers {i : Nat} {w : RxWorker σ}
    (hw : (workers c queues sinks budgets)[i]? = some w) :
    ∃ q s b, queues[i]? = some q ∧ sinks[i]? = some s ∧ budgets[i]? = some b ∧
      w = {
        queue := q, sink := s, budget := .new b, batchSize := c.batchSize
        maxPolls := c.rx.maxPolls, backoff := ⟨c.rx.backoff, 1⟩ } := by
  induction queues, sinks, budgets using workers.induct generalizing i with
  | case1 queue queues sink sinks budget budgets ih =>
    rw [workers] at hw
    cases i with
    | zero =>
      cases hw
      exact ⟨queue, sink, budget, rfl, rfl, rfl, rfl⟩
    | succ i => exact ih hw
  | case2 queues sinks budgets hn =>
    rw [workers] at hw
    · cases hw
    · exact hn

theorem map_sink_workers (hq : queues.length = sinks.length) (hb : budgets.length = sinks.length) :
    (workers c queues sinks budgets).map RxWorker.sink = sinks := by
  induction sinks generalizing queues budgets with
  | nil =>
    rw [List.length_eq_zero_iff.mp hq]
    rfl
  | cons s sinks ih =>
    obtain ⟨q, queues, rfl⟩ := List.exists_cons_of_length_eq_add_one hq
    obtain ⟨budget, budgets, rfl⟩ := List.exists_cons_of_length_eq_add_one hb
    exact congrArg (s :: ·) (ih (Nat.succ.inj hq) (Nat.succ.inj hb))

variable [ByteSink σ] [Hardware η]

omit [Hardware η] in
def settle (schedule : Schedule) (f : Floor (RxWorker σ)) :
    Except (Halt RunError) RunReport × List σ :=
  let sinks := f.stations.map (·.worker.sink)
  match Drive.outcome schedule f with
  | .error e => (.error e, sinks)
  | .ok reports =>
    let (flushed, sinks) := flushAll 0 sinks
    (flushed.map fun _ => ⟨.rx, reports⟩, sinks)

theorem drive_eq (hb : c.rx.budgets = .ok budgets) (shutdown : Bool) (sinks : List σ) (s : Session)
    {h h' : η} {card : Card} {f : Floor (RxWorker σ)}
    (hf : Drive.sweeps c.schedule shutdown (Drive.sweepsLeft (workers c s.queues sinks budgets)) h
      (Drive.start (workers c s.queues sinks budgets) card) = (h', f)) :
    drive c shutdown sinks s h card =
      ((settle c.schedule f).1, (settle c.schedule f).2,
        { s with queues := f.stations.map (·.worker.queue) }, h', f.card) := by
  have hrun : Drive.run c.schedule shutdown (workers c s.queues sinks budgets) h card =
      (Drive.outcome c.schedule f, f.stations.map (·.worker), h', f.card) := by
    rw [Drive.start] at hf
    simp only [Drive.run, hf]
  simp only [drive, driveBy, hb, hrun, settle, flushEach_card, List.map_map, Function.comp_def]
  cases Drive.outcome c.schedule f <;> rfl

end DmaBurst.Receive
