import DmaBurst.Proofs.CommandLine.Feed
import DmaBurst.Proofs.Run.Interleaving
import DmaBurst.Proofs.Worker.Pace
import DmaBurst.Proofs.Worker.ReceiveStream

namespace DmaBurst

open CommandLine Feed LawfulSink

namespace RxWorker

theorem complete_iff_of_verdict {σ : Type} {w : RxWorker σ} {flags : List Bool}
    {status : WorkerStatus} (h : w.verdict flags = some status) :
    status = .complete ↔ w.budget.remaining ≤ 0 := by
  rw [verdict] at h
  split at h
  · next hmet =>
    cases h
    simpa [Budget.isMet] using hmet
  · next hmet =>
    have howes : ¬ w.budget.remaining ≤ 0 := by simpa [Budget.isMet] using hmet
    split_ifs at h <;> cases h <;> simp [howes]

structure Drains (w₀ : RxWorker FileSink) (queue packetLen taken : Nat) (w : RxWorker FileSink) :
    Prop where
  moved : w₀.Moved w ((List.range taken).map (packet queue packetLen))
  ready : w.queue.Ready
  channel_id_eq : w.queue.channel.id = ⟨.rx, queue⟩
  initial_eq : w.budget.initial = w₀.budget.initial
  place_eq : w.sink.place = w₀.sink.place
  complete_iff : ∀ status, w.finished = some status →
    (status = .complete ↔ w.budget.remaining ≤ 0)

namespace Drains

variable {w₀ w : RxWorker FileSink} {queue packetLen taken total : Nat} {f : Feed} {r : PacketRing}

theorem start (hready : w.queue.Ready) (hid : w.queue.channel.id = ⟨.rx, queue⟩)
    (hnone : w.finished = none) (packetLen : Nat) : Drains w queue packetLen 0 w := by
  refine ⟨.refl w, hready, hid, rfl, rfl, fun status hs => ?_⟩
  cases hnone.symm.trans hs

theorem steady (h : Drains w₀ queue packetLen taken w) (hf : f.Fills total taken r) :
    w.Steady r := by
  obtain ⟨c, q, hshow, -⟩ := hf.shows
  exact ⟨h.ready, by rw [h.channel_id_eq], ⟨c, hshow.stands⟩, ⟨_, _, hshow.fits⟩⟩

theorem finish (h : Drains w₀ queue packetLen taken w) {status : WorkerStatus}
    (hstatus : status = .complete ↔ w.budget.remaining ≤ 0) :
    Drains w₀ queue packetLen taken { w with finished := some status } := by
  refine ⟨⟨h.moved.stored_eq, h.moved.remaining_eq, h.moved.packets_eq, h.moved.bytes_eq,
    h.moved.acquires_eq, h.moved.releases_eq, h.moved.batchSize_eq, h.moved.id_eq⟩, h.ready,
    h.channel_id_eq, h.initial_eq, h.place_eq, fun status' hs => ?_⟩
  cases hs
  exact hstatus

theorem burst (h : Drains w₀ f.queue f.packetLen taken w) (hf : f.Fills total taken r)
    (ht : total ≤ budgetMax) (hb : 0 < w.budget.remaining) (hnone : w.finished = none) :
    ∃ n p, (w.burst r).1 = .ok p ∧ (∀ status, p ≠ .done status) ∧
      Drains w₀ f.queue f.packetLen (taken + n) (w.burst r).2.1 ∧
      f.Fills total (taken + n) (w.burst r).2.2 := by
  obtain ⟨n, hdue, hf'⟩ := hf.takeOff ht w.batchSize
  have hdue : w.due r = (List.range' taken n).map (packet f.queue f.packetLen) := hdue
  have hlen : ((w.due r).length : Int) ≤ budgetMax := by
    have := hf'.taken_le
    have := hf'.total_eq
    rw [hdue, List.length_map, List.length_range']
    omega
  obtain ⟨hok, -⟩ := writeEach_accepts (s := w.sink) trivial ((w.due r).map Packet.data)
  have hw : writeEach ((w.due r).map Packet.data) w.sink =
      (.ok (), (writeEach ((w.due r).map Packet.data) w.sink).2) := Prod.ext hok rfl
  obtain ⟨backoff, hburst⟩ := (h.steady hf).burst_of_written hw hlen hb
  have hpackets : (List.range taken).map (packet f.queue f.packetLen) ++ w.due r =
      (List.range (taken + n)).map (packet f.queue f.packetLen) := by
    rw [hdue, ← List.map_append, List.range_eq_range', List.range_eq_range',
      ← List.range'_append_1, Nat.zero_add]
  rw [hburst]
  refine ⟨n, _, rfl, fun status => ?_, ⟨?_, ⟨h.ready.started, h.ready.bound, rfl⟩,
    h.channel_id_eq, h.initial_eq, ?_, fun status hs => ?_⟩, hf'⟩
  · split <;> exact fun hn => by cases hn
  · rw [← hpackets]
    exact h.moved.trans (moved_of_written hw rfl backoff)
  · exact (FileSink.place_writeEach _ _).trans h.place_eq
  · cases hnone.symm.trans hs

theorem poll (h : Drains w₀ f.queue f.packetLen taken w) (hf : f.Fills total taken r)
    (ht : total ≤ budgetMax) :
    ∃ n p, (w.poll undisturbed r).1 = .ok p ∧
      (∀ status, p = .done status → (w.poll undisturbed r).2.1.finished = some status) ∧
      Drains w₀ f.queue f.packetLen (taken + n) (w.poll undisturbed r).2.1 ∧
      f.Fills total (taken + n) (w.poll undisturbed r).2.2 := by
  cases hfinished : w.finished with
  | some status =>
    have hpoll : w.poll undisturbed r = (.ok (.done status), w, r) := by
      rw [RxWorker.poll, hfinished]
    rw [hpoll]
    refine ⟨0, _, rfl, fun status' hs => ?_, h, hf⟩
    cases hs
    exact hfinished
  | none =>
    cases hv : w.verdict undisturbed with
    | some status =>
      have hpoll : w.poll undisturbed r =
          (.ok (.done status), { w with finished := some status }, r) := by
        rw [RxWorker.poll, hfinished]
        simp only [hv]
      rw [hpoll]
      refine ⟨0, _, rfl, fun status' hs => ?_, h.finish (complete_iff_of_verdict hv), hf⟩
      cases hs
      rfl
    | none =>
      have hb : 0 < w.budget.remaining := by
        have howes := (verdict_eq_none.mp hv).1
        simpa [Budget.isMet] using howes
      obtain ⟨n, p, hok, hgoing, hdrains, hf'⟩ := h.burst hf ht hb hfinished
      rw [poll_eq_burst hfinished hv]
      exact ⟨n, p, hok, fun status hs => absurd hs (hgoing status), hdrains, hf'⟩

theorem report_exact (h : Drains w₀ queue packetLen taken w) {b : Int} (hb : w₀.budget = .new b)
    (hstats : w₀.queue.stats = {}) (hempty : w₀.sink.pieces = []) (ht : taken ≤ b)
    (hmax : b ≤ budgetMax) (hfinished : w.finished.isSome) :
    w.sink.content = (List.range taken).flatMap (stamped queue packetLen) ∧
      w.report.delivered = .ok taken ∧ w.report.stats.packets = taken ∧
      w.report.stats.bytes = taken * packetLen ∧ w.report.remaining = b - taken ∧
      (w.report.status = .complete ↔ taken = b) := by
  obtain ⟨status, hstatus⟩ := Option.isSome_iff_exists.mp hfinished
  have hcontent := h.moved.stored_eq
  have hbytes := h.moved.bytes_eq
  have hremaining := h.moved.remaining_eq
  have hpackets := h.moved.packets_eq
  have hinitial := h.initial_eq
  rw [flatten_packets] at hcontent hbytes
  rw [length_flatMap_stamped, hstats] at hbytes
  simp only [List.length_map, List.length_range] at hremaining hpackets
  rw [hstats] at hpackets
  rw [hb] at hremaining hinitial
  have hrem : w.budget.remaining = b - taken := by
    have : (Budget.new b).remaining = b := rfl
    omega
  have hini : w.budget.initial = b := hinitial
  refine ⟨?_, ?_, ?_, ?_, hrem, ?_⟩
  · have hnone : stored w₀.sink = [] := by
      change w₀.sink.content = []
      rw [FileSink.content, hempty]
      rfl
    rw [hnone] at hcontent
    exact hcontent
  · rw [WorkerReport.delivered, report]
    dsimp only
    rw [hini, hrem, checked, if_pos]
    · congr 1
      omega
    · simp only [budgetMin, budgetMax] at hmax ⊢
      omega
  · exact hpackets.trans (Nat.zero_add _)
  · exact hbytes.trans (Nat.zero_add _)
  · rw [report, hstatus]
    dsimp only
    rw [Option.getD_some, h.complete_iff status hstatus, hrem]
    omega

end Drains

end RxWorker

structure Station.Drains (w₀ : RxWorker FileSink) (queue packetLen taken : Nat)
    (s : Station (RxWorker FileSink)) : Prop where
  drains : w₀.Drains queue packetLen taken s.worker
  reported : ∀ answer, s.ended = some answer →
    s.worker.finished.isSome ∧ answer = .ok s.worker.report

namespace Station.Drains

variable {w₀ : RxWorker FileSink} {queue packetLen taken total : Nat} {f : Feed} {r : PacketRing}
  {s : Station (RxWorker FileSink)}

theorem id_eq (h : Station.Drains w₀ queue packetLen taken s) : s.id = ⟨.rx, queue⟩ :=
  h.drains.channel_id_eq

theorem not_failed (h : Station.Drains w₀ queue packetLen taken s) : Drive.failed s = false := by
  cases he : s.ended with
  | none =>
    rw [Drive.failed, he]
    rfl
  | some answer =>
    have hreport : s.ended = some (.ok s.worker.report) := by rw [he, (h.reported answer he).2]
    exact Drive.failed_of_report hreport

theorem alone (h : Station.Drains w₀ f.queue f.packetLen taken s) (hf : f.Fills total taken r)
    (ht : total ≤ budgetMax) :
    ∃ n, Station.Drains w₀ f.queue f.packetLen (taken + n) (Drive.alone (s, r)).1 ∧
      f.Fills total (taken + n) (Drive.alone (s, r)).2 := by
  cases he : s.ended with
  | some answer =>
    rw [Drive.alone_of_ended (by rw [he]; rfl)]
    exact ⟨0, h, hf⟩
  | none =>
    obtain ⟨n, p, hok, hdone, hdrains, hf'⟩ := h.drains.poll hf ht
    rw [Drive.alone_of_polled he]
    refine ⟨n, ⟨hdrains, fun answer ha => ?_⟩, hf'⟩
    have hpoll : (Worker.poll undisturbed s.worker r).1 = .ok p := hok
    simp only [hpoll] at ha
    cases p with
    | done status =>
      cases ha
      exact ⟨Option.isSome_iff_exists.mpr ⟨status, hdone status rfl⟩, rfl⟩
    | progress packets => cases ha
    | idle => cases ha

end Station.Drains

namespace CommandLine

/-- What happens in a receive run: the feed in place `i` offers a packet to its ring, or the worker
in place `i` is polled. -/
inductive Move where
  | offer (i : Nat)
  | poll (i : Nat)

namespace Move

section Rows

variable {ω : Type} [Worker ω]

def run : Move → List Feed × Floor ω → List Feed × Floor ω
  | .offer i, (fs, f) =>
    let (fs, card) := offerAt i (fs, f.card)
    (fs, { f with card })
  | .poll i, (fs, f) => (fs, Drive.turn i f)

def runAll (moves : List Move) (x : List Feed × Floor ω) : List Feed × Floor ω :=
  moves.foldl (fun x m => m.run x) x

theorem runAll_append (moves moves' : List Move) (x : List Feed × Floor ω) :
    runAll (moves ++ moves') x = runAll moves' (runAll moves x) :=
  List.foldl_append

theorem runAll_offer (order : List Nat) (fs : List Feed) (f : Floor ω) :
    runAll (order.map offer) (fs, f) =
      ((offers order (fs, f.card)).1, { f with card := (offers order (fs, f.card)).2 }) := by
  induction order generalizing fs f with
  | nil => rfl
  | cons i order ih => exact ih _ _

theorem runAll_poll (order : List Nat) (fs : List Feed) (f : Floor ω) :
    runAll (order.map poll) (fs, f) = (fs, Drive.turns order f) := by
  induction order generalizing f with
  | nil => rfl
  | cons i order ih => exact ih _

theorem exists_moves (schedule : Schedule) (fuel : Nat) (fs : List Feed) (f : Floor ω) :
    ∃ moves, Drive.sweeps schedule false fuel fs f = runAll moves (fs, f) := by
  induction fuel generalizing fs f with
  | zero => exact ⟨[], rfl⟩
  | succ fuel ih =>
    rw [Drive.sweeps]
    split
    · exact ⟨[], rfl⟩
    · obtain ⟨order, horder⟩ := exists_offers fs f.card
      -- a sweep polls from the first worker on, each once, up to where a failure stops it
      obtain ⟨m, hsweep, -⟩ := Drive.sweep_eq_turns schedule { f with card := (actAll fs f.card).2 }
      obtain ⟨moves, hmoves⟩ := ih (actAll fs f.card).1
        (Drive.turns (List.range m) { f with card := (actAll fs f.card).2 })
      refine ⟨order.map offer ++ ((List.range m).map poll ++ moves), ?_⟩
      rw [runAll_append, runAll_append, runAll_offer, horder, runAll_poll, ← hmoves, ← hsweep]
      rfl

end Rows

/-- The feeds, the rings and the workers agree on how many packets have passed. -/
structure Afloat (ws : List (RxWorker FileSink)) (packetLen : Nat) (totals : List Nat)
    (taken : Nat → Nat) (x : List Feed × Floor (RxWorker FileSink)) : Prop where
  calm : Drive.Calm x.2
  fed : Fed packetLen totals taken (x.1, x.2.card)
  length_eq : x.2.stations.length = totals.length
  drains : ∀ {i s}, x.2.stations[i]? = some s →
    ∃ w₀, ws[i]? = some w₀ ∧ Station.Drains w₀ i packetLen (taken i) s

namespace Afloat

variable {ws : List (RxWorker FileSink)} {packetLen : Nat} {totals : List Nat} {taken : Nat → Nat}
  {x : List Feed × Floor (RxWorker FileSink)}

theorem map_place (h : Afloat ws packetLen totals taken x) (hlen : ws.length = totals.length) :
    x.2.stations.map (·.worker.sink.place) = ws.map (·.sink.place) := by
  refine List.ext_getElem? fun i => ?_
  rw [List.getElem?_map, List.getElem?_map]
  cases hs : x.2.stations[i]? with
  | none =>
    rw [List.getElem?_eq_none_iff, h.length_eq, ← hlen] at hs
    rw [List.getElem?_eq_none hs]
    rfl
  | some s =>
    obtain ⟨w₀, hw₀, hdrains⟩ := h.drains hs
    rw [hw₀]
    exact congrArg some hdrains.drains.place_eq

theorem reported (h : Afloat ws packetLen totals taken x) {reports : List WorkerReport}
    (hreported : Drive.Reported x.2 reports) {i total : Nat} (htotal : totals[i]? = some total) :
    ∃ s w₀, x.2.stations[i]? = some s ∧ ws[i]? = some w₀ ∧
      reports[i]? = some s.worker.report ∧ s.worker.finished.isSome ∧
      w₀.Drains i packetLen (taken i) s.worker ∧ taken i ≤ total := by
  have hi := (List.getElem?_eq_some_iff.mp htotal).1
  obtain ⟨s, hs⟩ : ∃ s, x.2.stations[i]? = some s :=
    ⟨_, List.getElem?_eq_getElem (h.length_eq ▸ hi)⟩
  obtain ⟨w₀, hw₀, hdrains, hsettled⟩ := h.drains hs
  obtain ⟨report, hreport, hended⟩ := hreported.getElem? hs
  obtain ⟨hfinished, hanswer⟩ := hsettled _ hended
  cases hanswer
  obtain ⟨f, hf⟩ := h.fed.exists_feed hi
  obtain ⟨-, -, total', r, htotal', -, hfills⟩ := h.fed.fills hf
  cases htotal.symm.trans htotal'
  have := hfills.taken_le
  have := hfills.total_eq
  exact ⟨s, w₀, hs, hw₀, hreport, hfinished, hdrains, by omega⟩

theorem offer (h : Afloat ws packetLen totals taken x)
    (ht : ∀ total ∈ totals, (total : Int) ≤ budgetMax) (i : Nat) :
    Afloat ws packetLen totals taken ((Move.offer i).run x) := by
  have hfed := h.fed.offerAt ht i
  -- the stations have not changed, and a ring that is offered a packet is still there
  refine ⟨⟨h.calm.abort_eq, h.calm.apart, fun s hs => ?_⟩, hfed, h.length_eq, h.drains⟩
  obtain ⟨k, hk⟩ := List.mem_iff_getElem?.mp hs
  obtain ⟨w₀, -, hdrains⟩ := h.drains hk
  rw [hdrains.id_eq]
  exact hfed.isSome_ring? (h.length_eq ▸ (List.getElem?_eq_some_iff.mp hk).1)

theorem poll (h : Afloat ws packetLen totals taken x)
    (ht : ∀ total ∈ totals, (total : Int) ≤ budgetMax) (i : Nat) :
    ∃ taken', Afloat ws packetLen totals taken' ((Move.poll i).run x) := by
  obtain ⟨fs, floor⟩ := x
  cases hs : floor.stations[i]? with
  | none =>
    refine ⟨taken, ?_⟩
    rw [run, Drive.turn_of_none hs]
    exact h
  | some s =>
    obtain ⟨w₀, hw₀, hdrains⟩ := h.drains hs
    obtain ⟨f, hf⟩ := h.fed.exists_feed (h.length_eq ▸ (List.getElem?_eq_some_iff.mp hs).1)
    obtain ⟨rfl, rfl, total, r, htotal, hr, hfills⟩ := h.fed.fills hf
    obtain ⟨n, hdrains', hfills'⟩ := hdrains.alone hfills (ht total (List.mem_of_getElem? htotal))
    have hx : Drive.place? f.queue floor = some (s, r) :=
      Drive.place?_eq_some.mpr ⟨hs, hdrains.id_eq ▸ hr⟩
    obtain ⟨hcalm, -, -⟩ := h.calm.after_turn hx hdrains'.not_failed
    have hturn := h.calm.turn_eq hx
    have hsame : fs.set f.queue f = fs := by
      obtain ⟨hlt, hget⟩ := List.getElem?_eq_some_iff.mp hf
      exact (congrArg (fs.set f.queue) hget.symm).trans (List.set_getElem_self hlt)
    have hfed := h.fed.set hf hr htotal rfl rfl hfills'
    rw [hsame] at hfed
    refine ⟨Function.update taken f.queue (taken f.queue + n), hcalm, ?_, ?_, fun {k s'} hk => ?_⟩
    · rw [run, hturn, hdrains.id_eq]
      exact hfed
    · rw [run, hturn, List.length_set]
      exact h.length_eq
    · rw [run, hturn] at hk
      by_cases hki : k = f.queue
      · rw [hki, List.getElem?_set_self (List.getElem?_eq_some_iff.mp hs).1] at hk
        cases hk
        rw [hki, Function.update_self]
        exact ⟨w₀, hw₀, hdrains'⟩
      · rw [List.getElem?_set_ne (Ne.symm hki)] at hk
        rw [Function.update_of_ne hki]
        exact h.drains hk

/-- Whatever the order of the moves, no worker fails, and none gets ahead of its feed. -/
theorem runAll (h : Afloat ws packetLen totals taken x)
    (ht : ∀ total ∈ totals, (total : Int) ≤ budgetMax) (moves : List Move) :
    ∃ taken', Afloat ws packetLen totals taken' (Move.runAll moves x) := by
  induction moves generalizing taken x with
  | nil => exact ⟨taken, h⟩
  | cons move moves ih =>
    cases move with
    | offer i => exact ih (h.offer ht i)
    | poll i =>
      obtain ⟨taken', h'⟩ := h.poll ht i
      exact ih h'

end Afloat

end Move

end CommandLine

end DmaBurst
