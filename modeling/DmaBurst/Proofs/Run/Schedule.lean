import DmaBurst.Io.Scripted
import DmaBurst.Proofs.Run.Interleaving
import DmaBurst.Proofs.Run.Journal
import Mathlib

namespace DmaBurst

open Drive Session

def Card.HasQueues (card : Card) : Prop :=
  ∀ q : QueueId, q.index < card.spec.queueCount q.direction → (card.ring? q).isSome

theorem Card.hasQueues_create {spec : CardSpec} {card : Card} (h : create spec = .ok card) :
    card.HasQueues := by
  intro q hq
  rw [create_spec h] at hq
  obtain ⟨-, r, -, hl⟩ := create_line h hq
  rw [ring?, hl]
  rfl

theorem Card.HasQueues.withRing {α : Type} {card : Card} (h : card.HasQueues) (q : QueueId)
    (f : PacketRing → α × PacketRing) : (card.withRing q f).2.HasQueues := by
  intro q' hq
  rw [spec_withRing] at hq
  rw [ring?_withRing]
  split
  · rw [Option.isSome_map]
    exact h q' hq
  · exact h q' hq

namespace Session

variable {ω : Type} [Worker ω] {device : String} {direction : Direction} {count : Nat}
  {reset : Option ResetConfig} {s : Session} {card card' : Card} {ws : List ω}

theorem nodup_queueIds (direction : Direction) (count : Nat) : (queueIds direction count).Nodup :=
  List.pairwise_map.mpr (List.nodup_range.imp fun hne h => hne (QueueId.mk.inj h).2)

theorem standing_queues (h : setup device direction count reset card = (.ok s, card')) :
    s.queues.map Queue.standing = (queueIds direction count).map .ofStarted := by
  obtain ⟨-, hok⟩ := setup_standing device direction count reset card
  rw [h] at hok
  exact (hok s rfl).2.1

theorem ids_workers (h : setup device direction count reset card = (.ok s, card'))
    (hws : ws.map Worker.queue = s.queues) :
    (ws.map fun w => (Worker.queue w).channel.id) = queueIds direction count := by
  have hids := congrArg (List.map Standing.id) (standing_queues h)
  rw [← hws] at hids
  simpa only [List.map_map, Function.comp_def, Queue.standing, Standing.ofStarted,
    List.map_id'] using hids

theorem ring_workers (h : setup device direction count reset card = (.ok s, card'))
    (hcard : card.HasQueues)
    (hids : (ws.map fun w => (Worker.queue w).channel.id) = queueIds direction count) :
    ∀ w ∈ ws, (card.ring? (Worker.queue w).channel.id).isSome := by
  intro w hw
  have hmem : (Worker.queue w).channel.id ∈ queueIds direction count :=
    hids ▸ List.mem_map_of_mem hw
  obtain ⟨index, hi, hid⟩ := List.mem_map.mp hmem
  rw [← hid]
  exact hcard _ (Nat.lt_of_lt_of_le (List.mem_range.mp hi) (setup_sameRings h).2)

end Session

theorem Drive.AsAlone.congr {ω : Type} [Worker ω] {ws : List ω} {card card' : Card} {f : Floor ω}
    {reports : List WorkerReport} (h : AsAlone ws card' f reports)
    (hr : ∀ q, card'.ring? q = card.ring? q) : AsAlone ws card f reports := by
  refine ⟨h.1, fun i w hw => ?_⟩
  rw [← hr]
  exact h.2 i w hw

namespace Receive

variable {σ : Type} [ByteSink σ]

omit [ByteSink σ] in
theorem workers_schedule (c : Config) (schedule : Schedule) (queues : List Queue) (sinks : List σ)
    (budgets : List Int) :
    workers { c with schedule } queues sinks budgets = workers c queues sinks budgets := by
  induction queues, sinks, budgets using workers.induct with
  | case1 queue queues sink sinks budget budgets ih =>
    rw [workers, workers, ih]
  | case2 queues sinks budgets hn =>
    rw [workers, workers]
    · exact hn
    · exact hn

/-- What a run makes of workers that have come to their reports: it flushes the sinks and gives
everything back. -/
def conclude (s : Session) (f : Floor (RxWorker σ)) (reports : List WorkerReport) :
    Except (Halt RunError) RunReport × List σ × Unit × Card :=
  let ws := f.stations.map Station.worker
  let (flushed, sinks) := flushAll 0 (ws.map RxWorker.sink)
  (flushed.map fun _ => ⟨.rx, reports⟩, sinks, (),
    teardown { s with queues := ws.map RxWorker.queue } f.card)

theorem run_eq_conclude {c : Config} {card card' : Card} {s : Session} {sinks : List σ}
    {budgets : List Int} {f : Floor (RxWorker σ)} {reports : List WorkerReport}
    (hc : c.validate = .ok ()) (hb : c.rx.budgets = .ok budgets)
    (hlen : sinks.length = c.rx.queueCount)
    (hs : setup c.device .rx c.rx.queueCount (reset? c) card = (.ok s, card'))
    (hrun : Drive.run c.schedule false (workers c s.queues sinks budgets) ()
      (s.pulse c.rx.reset card') = (.ok reports, f.stations.map Station.worker, (), f.card)) :
    run c false sinks () card = conclude s f reports := by
  rw [reset?] at hs
  rw [run, runBy, hc]
  simp only [hlen, ne_eq, not_true_eq_false, if_false, Ground.onCard_card, hs, driveBy, hb, hrun,
    flushEach_card]
  rfl

end Receive

namespace Transmit

variable {σ : Type} [PacketSource σ]

def conclude (s : Session) (f : Floor (TxWorker σ)) (reports : List WorkerReport) :
    Except (Halt RunError) RunReport × List σ × Unit × Card :=
  let ws := f.stations.map Station.worker
  (.ok ⟨.tx, reports⟩, ws.map TxWorker.source, (),
    teardown { s with queues := ws.map TxWorker.queue } f.card)

theorem run_eq_conclude {c : Config} {card card' : Card} {s : Session} {sources : List σ}
    {f : Floor (TxWorker σ)} {reports : List WorkerReport} (hc : c.validate = .ok ())
    (hlen : sources.length = c.tx.queues)
    (hs : setup c.device .tx c.tx.queues none card = (.ok s, card'))
    (hrun : Drive.run c.schedule false (workers c s.queues sources) () card' =
      (.ok reports, f.stations.map Station.worker, (), f.card)) :
    run c false sources () card = conclude s f reports := by
  rw [run, hc]
  simp only [hlen, ne_eq, not_true_eq_false, if_false, hs, hrun]
  rfl

end Transmit

/-- Workers that come to their reports come to what they come to alone, whatever the order of their
polls. -/
structure OrderFree {ω R : Type} [Worker ω] (ids : List QueueId) (ws : List ω) (card started : Card)
    (conclude : Floor ω → List WorkerReport → R) (run : Schedule → R) : Prop where
  ids_eq : (ws.map fun w => (Worker.queue w).channel.id) = ids
  asAlone : ∀ order reports, Reported (turns order (start ws started)) reports →
    AsAlone ws card (turns order (start ws started)) reports
  run_eq : ∀ order reports, Reported (turns order (start ws started)) reports →
    ∀ schedule, run schedule = conclude (turns order (start ws started)) reports
  exists_order : ∀ schedule reports, (Drive.run schedule false ws () started).1 = .ok reports →
    ∃ order, Reported (turns order (start ws started)) reports

theorem OrderFree.agree {ω R : Type} [Worker ω] {ids : List QueueId} {ws : List ω}
    {card started : Card} {conclude : Floor ω → List WorkerReport → R} {run : Schedule → R}
    (h : OrderFree ids ws card started conclude run) (order : List Nat)
    {reports : List WorkerReport} (hdone : Reported (turns order (start ws started)) reports) :
    AsAlone ws card (turns order (start ws started)) reports ∧
      ∀ schedule schedule', run schedule = run schedule' :=
  ⟨h.asAlone order reports hdone, fun schedule schedule' =>
    (h.run_eq order reports hdone schedule).trans (h.run_eq order reports hdone schedule').symm⟩

theorem orderFree {ω R : Type} [Worker ω] [LawfulWorker ω] [PacedWorker ω] {device : String}
    {direction : Direction} {count : Nat} {reset : Option ResetConfig} {s : Session}
    {card card' started : Card} {ws : List ω} {conclude : Floor ω → List WorkerReport → R}
    {run : Schedule → R} (hcard : card.HasQueues)
    (hs : setup device direction count reset card = (.ok s, card'))
    (hstarted : ∀ q, started.ring? q = card'.ring? q) (hws : ws.map Worker.queue = s.queues)
    (hrun : ∀ schedule f reports, Drive.run schedule false ws () started =
      (.ok reports, f.stations.map Station.worker, (), f.card) →
      run schedule = conclude f reports) :
    OrderFree (queueIds direction count) ws card started conclude run := by
  have hids := ids_workers hs hws
  have hsame : ∀ q, started.ring? q = card.ring? q :=
    fun q => (hstarted q).trans ((setup_sameRings hs).1.2 q)
  have hring : ∀ w ∈ ws, (started.ring? (Worker.queue w).channel.id).isSome := by
    intro w hw
    rw [hsame]
    exact ring_workers hs hcard hids w hw
  have hapart := hids ▸ nodup_queueIds direction count
  exact ⟨hids, fun _ _ hdone => (asAlone_of_reported hapart hring hdone).congr hsame,
    fun _ reports hdone schedule =>
      hrun schedule _ reports (run_of_reported hapart hring hdone schedule),
    fun _ _ h => exists_reported h⟩

/-- On a card that has its queues, a run of a valid configuration whose setup succeeds polls workers
that do not depend on the order of their polls, so both schedules return the same. -/
theorem runs_orderFree (c : Config) (hc : c.validate = .ok ()) {card : Card}
    (hcard : card.HasQueues) :
    (∀ {σ : Type} [ByteSink σ] (sinks : List σ) (budgets : List Int) {s : Session} {card' : Card},
      c.rx.budgets = .ok budgets → sinks.length = c.rx.queueCount →
      setup c.device .rx c.rx.queueCount (Receive.reset? c) card = (.ok s, card') →
      OrderFree (queueIds .rx c.rx.queueCount) (Receive.workers c s.queues sinks budgets) card
        (s.pulse c.rx.reset card') (Receive.conclude s)
        fun schedule => Receive.run { c with schedule } false sinks () card) ∧
    ∀ {σ : Type} [PacketSource σ] (sources : List σ) {s : Session} {card' : Card},
      sources.length = c.tx.queues →
      setup c.device .tx c.tx.queues none card = (.ok s, card') →
      OrderFree (queueIds .tx c.tx.queues) (Transmit.workers c s.queues sources) card card'
        (Transmit.conclude s)
        fun schedule => Transmit.run { c with schedule } false sources () card := by
  constructor
  · intro σ _ sinks budgets s card' hb hlen hs
    have hqueues := length_queues (standing_queues hs)
    have hws := Receive.map_queue_workers (c := c) (hlen.trans hqueues.symm)
      ((Card.length_of_mapM_eq_ok hb).trans hqueues.symm)
    refine orderFree hcard hs (ring?_pulse c.rx.reset s card') hws fun schedule f reports hrun => ?_
    exact Receive.run_eq_conclude (c := { c with schedule }) hc hb hlen hs
      (Receive.workers_schedule c schedule s.queues sinks budgets ▸ hrun)
  · intro σ _ sources s card' hlen hs
    have hqueues := length_queues (standing_queues hs)
    have hws := Transmit.map_queue_workers (c := c) (hlen.trans hqueues.symm)
    refine orderFree hcard hs (fun _ => rfl) hws fun schedule f reports hrun => ?_
    exact Transmit.run_eq_conclude (c := { c with schedule }) hc hlen hs hrun

def pairSpec : CardSpec where
  rxQueues := 2
  txQueues := 2
  ringCapacity := 2
  slotSize := 2

def pairConfig : Config where
  batchSize := 1
  rx := { iterations := 1, packetsPerIteration := [2, 1] }
  tx := { queues := 2, packetLen := 1, rounds := 2 }

def pairSinks : List ScriptedSink :=
  [{ chunk := some 1 }, {}]

def pairSources : List ScriptedSource :=
  [{ cues := [.fill 1, .fill 2] }, { cues := [.fill 1] }]

def pairReceived : List WorkerReport :=
  [⟨⟨.rx, 0⟩, .complete, 2, 0, 2, ⟨2, 2, 0, 0, 2, 3⟩⟩,
    ⟨⟨.rx, 1⟩, .complete, 1, 0, 1, ⟨1, 1, 0, 0, 1, 1⟩⟩]

def pairSent : List WorkerReport :=
  [⟨⟨.tx, 0⟩, .complete, 2, 0, 2, ⟨2, 2, 0, 0, 2, 3⟩⟩,
    ⟨⟨.tx, 1⟩, .sourceExhausted, 2, 1, 2, ⟨2, 2, 0, 0, 1, 1⟩⟩]

theorem pair_orderFree :
    ∃ card₀ card s card' s' card'', Card.create pairSpec = .ok card₀ ∧
      (((card₀.push ⟨.rx, 0⟩ [1, 2] [] 0).2.push ⟨.rx, 0⟩ [3] [] 0).2.push ⟨.rx, 1⟩ [4] [] 0).2 =
        card ∧
      setup pairConfig.device .rx 2 (Receive.reset? pairConfig) card = (.ok s, card') ∧
      AsAlone (Receive.workers pairConfig s.queues pairSinks [2, 1]) card
        (turns [0, 1, 1, 0, 0] (start (Receive.workers pairConfig s.queues pairSinks [2, 1])
          (s.pulse pairConfig.rx.reset card'))) pairReceived ∧
      Receive.run { pairConfig with schedule := .roundRobin } false pairSinks () card =
        Receive.run { pairConfig with schedule := .threadPerQueue } false pairSinks () card ∧
      setup pairConfig.device .tx 2 none card = (.ok s', card'') ∧
      AsAlone (Transmit.workers pairConfig s'.queues pairSources) card
        (turns [1, 0, 0, 1, 1, 0] (start (Transmit.workers pairConfig s'.queues pairSources)
          card'')) pairSent ∧
      Transmit.run { pairConfig with schedule := .roundRobin } false pairSources () card =
        Transmit.run { pairConfig with schedule := .threadPerQueue } false pairSources () card := by
  have hcreate : Card.create pairSpec = .ok _ := rfl
  have hcard := (((Card.hasQueues_create hcreate).withRing ⟨.rx, 0⟩
    (·.push [1, 2] [] 0)).withRing ⟨.rx, 0⟩ (·.push [3] [] 0)).withRing ⟨.rx, 1⟩ (·.push [4] [] 0)
  obtain ⟨hrx, htx⟩ := runs_orderFree pairConfig rfl hcard
  have hreceive := hrx pairSinks [2, 1] rfl rfl rfl
  have htransmit := htx pairSources rfl rfl
  have hreceived := hreceive.agree [0, 1, 1, 0, 0] (show Reported _ pairReceived by
    rw [Reported]
    cbv)
  have hsent := htransmit.agree [1, 0, 0, 1, 1, 0] (show Reported _ pairSent from rfl)
  exact ⟨_, _, _, _, _, _, hcreate, rfl, rfl, hreceived.1, hreceived.2 _ _, rfl, hsent.1,
    hsent.2 _ _⟩

end DmaBurst
