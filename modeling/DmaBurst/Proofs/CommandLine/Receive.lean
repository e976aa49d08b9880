import DmaBurst.CommandLine.Run
import DmaBurst.Proofs.CommandLine.Moves
import DmaBurst.Proofs.Config.Budgets
import DmaBurst.Proofs.Io.QueueFile
import DmaBurst.Proofs.Run.Reuse
import DmaBurst.Proofs.Run.Settle

namespace DmaBurst

open CommandLine Feed LawfulSink

namespace Receive

variable {σ : Type} {c : Config} {queues : List Queue} {sinks : List σ} {budgets : List Int}

theorem flushAll_files (index : Nat) (sinks : List FileSink) :
    flushAll index sinks = (.ok (), sinks) := by
  induction sinks generalizing index with
  | nil => rfl
  | cons s sinks ih =>
    rw [flushAll, ih]
    rfl

theorem settle_eq_ok {schedule : Schedule} {f : Floor (RxWorker FileSink)} {report : RunReport}
    (h : (settle schedule f).1 = .ok report) :
    Drive.Reported f report.workers ∧ (settle schedule f).2 = f.stations.map (·.worker.sink) := by
  cases ho : Drive.outcome schedule f with
  | error e =>
    simp only [settle, ho] at h
    cases h
  | ok reports =>
    simp only [settle, ho, flushAll_files] at h
    cases h
    refine ⟨Drive.outcome_eq_ok.mp ho, ?_⟩
    simp only [settle, ho, flushAll_files]

theorem exists_drive_eq [ByteSink σ] (hb : c.rx.budgets = .ok budgets) (sinks : List σ)
    (s : Session) (fs : List Feed) (card : Card) :
    ∃ moves, ((drive c false sinks s fs card).1, (drive c false sinks s fs card).2.1) =
      settle c.schedule
        (Move.runAll moves (fs, Drive.start (workers c s.queues sinks budgets) card)).2 := by
  obtain ⟨moves, hmoves⟩ := Move.exists_moves c.schedule
    (Drive.sweepsLeft (workers c s.queues sinks budgets)) fs
    (Drive.start (workers c s.queues sinks budgets) card)
  refine ⟨moves, ?_⟩
  rw [drive_eq hb false sinks s hmoves]
  rfl

end Receive

namespace CommandLine

/-- A receive run in which the feeds make the offers of `early` before the device is opened, and
`moves` is what happens between setup and teardown. -/
def receiveAlong (early : List Nat) (moves : List Move) (s : Settings) (t : FileTree) :
    Result × FileTree :=
  let rx := s.config.rx
  match createSinks rx.outputDir rx.filePrefix rx.queueCount t with
  | (.error e, t) => (.error (.refused (.open e)), t)
  | (.ok sinks, t) =>
    match Card.create (rxSpec s) with
    | .error f => (.error (.fault f), closeSinks sinks t)
    | .ok card =>
      match rx.budgets with
      | .error f => (.error (.fault f), closeSinks sinks t)
      | .ok budgets =>
        let (feeds, card) := offers early (feeds s.emulation budgets, card)
        match Session.setup s.config.device .rx rx.queueCount (Receive.reset? s.config) card with
        | (.error e, _) => (.error (.refused (.run e)), closeSinks sinks t)
        | (.ok session, card) =>
          let ws := Receive.workers s.config session.queues sinks budgets
          let (_, f) := Move.runAll moves (feeds, Drive.start ws (session.pulse rx.reset card))
          let (answer, sinks) := Receive.settle s.config.schedule f
          (answer.mapError (·.map .run), closeSinks sinks t)

/-- On either schedule, a receive run is a row of moves between setup and teardown. -/
theorem exists_receiveAlong {s : Settings} (hc : s.config.validate = .ok ()) (t : FileTree) :
    ∃ moves, receive s t = receiveAlong [] moves s t := by
  simp only [receive, receiveAlong]
  rcases hsinks : createSinks s.config.rx.outputDir s.config.rx.filePrefix s.config.rx.queueCount t
    with ⟨e | sinks, t₁⟩
  · exact ⟨[], rfl⟩
  cases hcard : Card.create (rxSpec s) with
  | error f => exact ⟨[], rfl⟩
  | ok card =>
    cases hb : s.config.rx.budgets with
    | error f => exact ⟨[], rfl⟩
    | ok budgets =>
      have hlen : sinks.length = s.config.rx.queueCount := (createFrom_eq_ok hsinks).2.1
      obtain ⟨reset, hreset⟩ : ∃ reset, Receive.reset? s.config = reset := ⟨_, rfl⟩
      have hreset' := hreset
      rw [Receive.reset?] at hreset'
      simp only [bind, Except.bind, pure, Except.pure, Receive.run, Receive.runBy, hc, hlen, ne_eq,
        not_true_eq_false, if_false, Ground.onCard_card, hreset, hreset', offers, List.foldl_nil]
      rcases hsetup : Session.setup s.config.device .rx s.config.rx.queueCount reset card
        with ⟨e | session, card₁⟩
      · exact ⟨[], rfl⟩
      · obtain ⟨moves, hmoves⟩ := Receive.exists_drive_eq hb sinks session
          (feeds s.emulation budgets) (session.pulse s.config.rx.reset card₁)
        refine ⟨moves, ?_⟩
        simp only [← hmoves, Receive.drive]

theorem Move.afloat_start {s : Settings} {budgets : List Int} {sinks : List FileSink}
    {card card₁ : Card} {session : Session} (hcap : s.emulation.ringCapacity < 2 ^ 64)
    (hcard : Card.create (rxSpec s) = .ok card) (hlen : budgets.length = s.config.rx.queueCount)
    (hsinks : sinks.length = s.config.rx.queueCount)
    (ht : ∀ total ∈ totals s.emulation budgets, (total : Int) ≤ budgetMax) (early : List Nat)
    (hsetup : Session.setup s.config.device .rx s.config.rx.queueCount (Receive.reset? s.config)
      (offers early (feeds s.emulation budgets, card)).2 = (.ok session, card₁)) :
    Afloat (Receive.workers s.config session.queues sinks budgets) s.emulation.rxPacketLen
      (totals s.emulation budgets) (fun _ => 0)
      ((offers early (feeds s.emulation budgets, card)).1,
        Drive.start (Receive.workers s.config session.queues sinks budgets)
          (session.pulse s.config.rx.reset card₁)) := by
  have hqueues := Session.length_queues (Session.standing_queues hsetup)
  have hqs := Receive.map_queue_workers (c := s.config) (hsinks.trans hqueues.symm)
    (hlen.trans hqueues.symm)
  obtain ⟨ws, hws⟩ : ∃ ws, Receive.workers s.config session.queues sinks budgets = ws := ⟨_, rfl⟩
  have hids := Session.ids_workers hsetup hqs
  have hfed := ((fed_feeds hcap hcard hlen).offers ht early).of_rings fun q =>
    (Session.ring?_pulse s.config.rx.reset session card₁ q).trans
      ((Session.setup_sameRings hsetup).1.2 q)
  rw [hws] at hqs hids ⊢
  have hcount : ws.length = (totals s.emulation budgets).length := by
    rw [← List.length_map RxWorker.queue, hqs, hqueues, totals, List.length_map, hlen]
  have hid : ∀ i w, ws[i]? = some w → (Worker.queue w).channel.id = ⟨.rx, i⟩ := by
    intro i w hw
    have hi := congrArg (·[i]?) hids
    simp only [List.getElem?_map, hw, Option.map_some, Session.queueIds] at hi
    obtain ⟨index, hindex, heq⟩ := Option.map_eq_some_iff.mp hi.symm
    obtain ⟨hi, hget⟩ := List.getElem?_eq_some_iff.mp hindex
    rw [← heq, ← hget, List.getElem_range]
  refine ⟨Drive.calm_start (hids ▸ Session.nodup_queueIds _ _) fun w hw => ?_, hfed, ?_,
    fun {i st} hst => ?_⟩
  · obtain ⟨i, hi⟩ := List.mem_iff_getElem?.mp hw
    rw [hid i w hi]
    exact hfed.isSome_ring? (hcount ▸ (List.getElem?_eq_some_iff.mp hi).1)
  · rw [Drive.start, List.length_map, hcount]
  · rw [Drive.start, List.getElem?_map] at hst
    obtain ⟨w, hw, rfl⟩ := Option.map_eq_some_iff.mp hst
    obtain ⟨q, sink, b, hq, -, -, rfl⟩ := Receive.getElem?_workers (hws ▸ hw)
    have hready := Session.ready_of_setup hsetup (List.mem_of_getElem? hq)
    exact ⟨_, hw, .start hready (hid i _ hw) rfl _, fun answer ha => by cases ha⟩

theorem receiveAlong_eq_ok {s : Settings} {t t' : FileTree} {early : List Nat} {moves : List Move}
    {report : RunReport} {budgets : List Int} (hb : s.config.rx.budgets = .ok budgets)
    (h : receiveAlong early moves s t = (.ok report, t')) :
    ∃ sinks t₁ card session card₁ fs f,
      createSinks s.config.rx.outputDir s.config.rx.filePrefix s.config.rx.queueCount t =
        (.ok sinks, t₁) ∧
      Card.create (rxSpec s) = .ok card ∧
      Session.setup s.config.device .rx s.config.rx.queueCount (Receive.reset? s.config)
        (offers early (feeds s.emulation budgets, card)).2 = (.ok session, card₁) ∧
      Move.runAll moves ((offers early (feeds s.emulation budgets, card)).1,
        Drive.start (Receive.workers s.config session.queues sinks budgets)
          (session.pulse s.config.rx.reset card₁)) = (fs, f) ∧
      Drive.Reported f report.workers ∧ t' = closeSinks (f.stations.map (·.worker.sink)) t₁ := by
  simp only [receiveAlong, hb] at h
  rcases hsinks : createSinks s.config.rx.outputDir s.config.rx.filePrefix s.config.rx.queueCount t
    with ⟨_ | sinks, t₁⟩
  · rw [hsinks] at h
    cases h
  rw [hsinks] at h
  cases hcard : Card.create (rxSpec s) with
  | error e =>
    rw [hcard] at h
    cases h
  | ok card =>
    rw [hcard] at h
    rcases hsetup : Session.setup s.config.device .rx s.config.rx.queueCount
      (Receive.reset? s.config) (offers early (feeds s.emulation budgets, card)).2
      with ⟨_ | session, card₁⟩
    · simp only [hsetup] at h
      cases h
    · simp only [hsetup] at h
      obtain ⟨⟨fs, f⟩, hf⟩ : ∃ x, Move.runAll moves
        ((offers early (feeds s.emulation budgets, card)).1,
          Drive.start (Receive.workers s.config session.queues sinks budgets)
            (session.pulse s.config.rx.reset card₁)) = x := ⟨_, rfl⟩
      rw [hf] at h
      obtain ⟨hanswer, rfl⟩ := Prod.mk.inj h
      cases hsettle : (Receive.settle s.config.schedule f).1 with
      | error e =>
        rw [hsettle] at hanswer
        cases hanswer
      | ok report' =>
        rw [hsettle] at hanswer
        cases hanswer
        obtain ⟨hreported, hfiles⟩ := Receive.settle_eq_ok hsettle
        exact ⟨sinks, t₁, card, session, card₁, fs, f, rfl, rfl, hsetup, hf, hreported,
          by rw [hfiles]⟩

/-- A receive run that succeeds leaves the first packets of each feed in the file of its queue, and
the reports count just these. On either schedule a run is one order of offers and polls. -/
theorem received_exact {s : Settings} (hc : s.config.validate = .ok ()) {budgets : List Int}
    (hb : s.config.rx.budgets = .ok budgets) (hcap : s.emulation.ringCapacity < 2 ^ 64)
    (t : FileTree) :
    (∃ moves, receive s t = receiveAlong [] moves s t) ∧
    ∀ early moves report t', receiveAlong early moves s t = (.ok report, t') →
      report.workers.length = s.config.rx.queueCount ∧
      ∀ (i : Nat) (b : Int), budgets[i]? = some b → ∃ w d, report.workers[i]? = some w ∧
        t'.find (Path.queueFile s.config.rx.outputDir s.config.rx.filePrefix i) =
          .ok (.file ((List.range d).flatMap (stamped i s.emulation.rxPacketLen))) ∧
        w.delivered = .ok d ∧ w.stats.packets = d ∧ d ≤ max 0 (b - s.emulation.withhold) ∧
        w.stats.bytes = d * s.emulation.rxPacketLen ∧ w.remaining = b - d ∧ 0 ≤ w.remaining ∧
        (w.status = .complete ↔ d = b) ∧ (0 < s.emulation.withhold → w.status ≠ .complete) := by
  refine ⟨exists_receiveAlong hc t, fun early moves report t' h => ?_⟩
  obtain ⟨sinks, t₁, card, session, card₁, fs, f, hsinks, hcard, hsetup, hf, hreported, rfl⟩ :=
    receiveAlong_eq_ok hb h
  obtain ⟨-, hlen, hfresh⟩ := createFrom_eq_ok hsinks
  have hbudgets : budgets.length = s.config.rx.queueCount := Card.length_of_mapM_eq_ok hb
  have hbounds := s.config.budget_bounds hc hb
  have hstart := Move.afloat_start hcap hcard hbudgets hlen (totals_le hbounds) early hsetup
  obtain ⟨taken, hafloat⟩ := hstart.runAll (totals_le hbounds) moves
  rw [hf] at hafloat
  have hcount : (totals s.emulation budgets).length = s.config.rx.queueCount := by
    rw [totals, List.length_map, hbudgets]
  refine ⟨?_, fun i b hbi => ?_⟩
  · have hreports := congrArg List.length hreported
    rw [List.length_map, List.length_map, hafloat.length_eq, hcount] at hreports
    exact hreports.symm
  have htotal : (totals s.emulation budgets)[i]? = some (b.toNat - s.emulation.withhold) := by
    rw [totals, List.getElem?_map, hbi]
    rfl
  obtain ⟨st, w₀, hst, hw₀, hreport, hfinished, hdrains, hle⟩ :=
    hafloat.reported hreported htotal
  obtain ⟨q, sink, b', hq, hsink, hb', rfl⟩ := Receive.getElem?_workers hw₀
  cases hbi.symm.trans hb'
  obtain ⟨hpos, hmax⟩ := hbounds b (List.mem_of_getElem? hbi)
  have hunused := ((Session.setup_cases _ _ _ _ _).2 session card₁ hsetup).2 q
    (List.mem_of_getElem? hq)
  obtain ⟨-, -, hempty⟩ := hfresh i sink hsink
  obtain ⟨hcontent, hdelivered, hpackets, hbytes, hremaining, hcomplete⟩ :=
    hdrains.report_exact rfl hunused.stats_eq hempty (by omega) hmax hfinished
  refine ⟨_, taken i, hreport, ?_, hdelivered, hpackets, by omega, hbytes, hremaining, by omega,
    hcomplete, fun hwithhold hstatus => ?_⟩
  · have hqueues := Session.length_queues (Session.standing_queues hsetup)
    have hsame := Receive.map_sink_workers (c := s.config) (hqueues.trans hlen.symm)
      (hbudgets.trans hlen.symm)
    have hplaces := hafloat.map_place
      (by rw [← List.length_map RxWorker.sink, hsame, hlen, hcount])
    rw [← hcontent]
    refine find_closeSinks hsinks ?_ (by rw [List.getElem?_map, hst]; rfl)
    rw [List.map_map, ← hsame, List.map_map]
    exact hplaces
  · have := hcomplete.mp hstatus
    omega

end CommandLine

namespace RxWorker

/-- Appends the payloads of a burst to a file. Unlike the writing of bursts to sinks at large, this
can be computed. -/
def appendBurst (q : Queue) (r : PacketRing) :
    (count offset : Nat) → FileSink → Except (Halt IoError) Unit × FileSink
  | 0, _, s => (.ok (), s)
  | count + 1, offset, s =>
    match q.channel.packet offset r with
    | .error f => (.error (.fault f), s)
    | .ok p => appendBurst q r count (offset + 1) (if p.data = [] then s else s.write p.data)

theorem writeBurst_file (q : Queue) (r : PacketRing) (count offset : Nat) (s : FileSink) :
    writeBurst q r count offset s = appendBurst q r count offset s := by
  induction count generalizing offset s with
  | zero => rfl
  | succ count ih =>
    rw [writeBurst, appendBurst]
    cases q.channel.packet offset r with
    | error f => rfl
    | ok p =>
      simp only [writeAll_file]
      exact ih _ _

end RxWorker

namespace CommandLine

/-- Two queues on rings with a single slot, one packet of each withheld. -/
def backedUp : Settings where
  config := {
    rx := {
      iterations := 1, packetsPerIteration := [2, 3], maxPolls := some 2, outputDir := "out" } }
  emulation := { ringCapacity := 1, rxPacketLen := 9, withhold := 1 }

def backedUpReports : List WorkerReport :=
  [⟨⟨.rx, 0⟩, .underDelivery, 2, 1, 2, ⟨2, 2, 1, 1, 1, 9⟩⟩,
    ⟨⟨.rx, 1⟩, .underDelivery, 3, 1, 2, ⟨2, 2, 0, 2, 2, 18⟩⟩]

def backedUpMoves : List Move :=
  [.poll 1, .poll 0, .offer 1, .offer 0, .poll 1, .poll 0, .poll 1, .poll 0]

theorem backedUp_received_exact :
    ∃ t', receiveAlong [1, 1] backedUpMoves backedUp { dirs := [["out"]] } =
        (.ok ⟨.rx, backedUpReports⟩, t') ∧
      t'.find (Path.queueFile "out" "dma_data_" 0) = .ok (.file [0, 0, 0, 0, 0, 0, 0, 0, 0]) ∧
      t'.find (Path.queueFile "out" "dma_data_" 1) =
        .ok (.file [0, 0, 0, 0, 0, 0, 0, 0, 1, 1, 0, 0, 0, 0, 0, 0, 0, 1]) := by
  have hrun : (receiveAlong [1, 1] backedUpMoves backedUp { dirs := [["out"]] }).1.toOption =
      some ⟨.rx, backedUpReports⟩ := by
    -- everything can be computed but the writing of a burst, which stands deep inside
    delta receiveAlong Move.runAll Move.run Drive.turn Drive.step
    simp only [Drive.pollAt_card]
    delta Drive.pollOn RxWorker.instWorker RxWorker.poll RxWorker.burst RxWorker.drain
    simp only [RxWorker.writeBurst_file]
    decide +kernel
  rcases hx : receiveAlong [1, 1] backedUpMoves backedUp { dirs := [["out"]] } with ⟨_ | report, t'⟩
  · rw [hx] at hrun
    cases hrun
  rw [hx] at hrun
  cases hrun
  have hbudgets : backedUp.config.rx.budgets = .ok [2, 3] := rfl
  obtain ⟨-, hfiles⟩ := (received_exact rfl hbudgets (by decide) { dirs := [["out"]] }).2 [1, 1]
    backedUpMoves _ _ hx
  obtain ⟨w, d, hw, hfile, -, hd, -⟩ := hfiles 0 2 rfl
  obtain ⟨w', d', hw', hfile', -, hd', -⟩ := hfiles 1 3 rfl
  cases hw
  cases hw'
  cases hd
  cases hd'
  exact ⟨t', rfl, hfile, hfile'⟩

end CommandLine

end DmaBurst
