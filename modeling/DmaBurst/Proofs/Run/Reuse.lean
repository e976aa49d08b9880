import DmaBurst.Proofs.Run.GiveBack
import DmaBurst.Proofs.Run.Schedule
import DmaBurst.Proofs.Worker.Tidy
import DmaBurst.Proofs.Worker.TransmitStream

namespace DmaBurst

open Drive Session

theorem Card.HasQueues.alike {card card' : Card} (h : card.HasQueues) (hc : card.Alike card') :
    card'.HasQueues := by
  intro q hq
  rw [hc.isSome_ring?]
  exact h q (hc.spec_eq ▸ hq)

def Still (η : Type) [Hardware η] : Prop :=
  ∀ (h : η) (card : Card), (Hardware.act h card).2 = card

/-- What workers leave of a card with idle rings: what is open and bound is as it was, the rings are
idle, and if the hardware keeps still, the packets have been carried in one direction. -/
structure Card.Tended (direction : Direction) (still : Prop) (card card' : Card) : Prop where
  alike : card.Alike card'
  idle : card'.Idle
  carries : still → card.Carries direction card'

namespace Card.Tended

variable {direction : Direction} {still : Prop} {card card' : Card}

theorem refl (hi : card.Idle) : card.Tended direction still card :=
  ⟨.refl card, hi, fun _ => .of_rings direction fun _ => rfl⟩

theorem of_rings (hi : card.Idle) (hc : card.Alike card')
    (hr : ∀ q, card'.ring? q = card.ring? q) : card.Tended direction still card' :=
  ⟨hc, hi.of_rings hr, fun _ => .of_rings direction hr⟩

end Card.Tended

structure Drive.Fit {ω : Type} [Worker ω] (direction : Direction) (card : Card) (w : ω) : Prop where
  ready : (Worker.queue w).Ready
  direction_eq : (Worker.queue w).channel.id.direction = direction
  isSome_ring? : (card.ring? (Worker.queue w).channel.id).isSome

namespace Drive

variable {ω η : Type} [Worker ω] [LawfulWorker ω] {direction : Direction} [TidyWorker direction ω]
  {still : Prop} {card card' : Card}

theorem pollOn_tended (flags : List Bool) {w : ω} (hw : Fit direction card w)
    (hc : card.Tended direction still card') :
    Fit direction card (pollOn flags w card').2.1 ∧
      card.Tended direction still (pollOn flags w card').2.2 := by
  have hsome : (card'.ring? (Worker.queue w).channel.id).isSome := by
    rw [hc.alike.isSome_ring?]
    exact hw.isSome_ring?
  obtain ⟨r, hr⟩ := Option.isSome_iff_exists.mp hsome
  obtain ⟨hready, hidle, hcarries⟩ :=
    TidyWorker.poll_tidy flags w r hw.ready hw.direction_eq (hc.idle _ _ hr)
  have hid : (Worker.queue (Worker.poll flags w r).2.1).channel.id = (Worker.queue w).channel.id :=
    congrArg Standing.id (LawfulWorker.poll_standing flags w r)
  have halike : card'.Alike (pollOn flags w card').2.2 := by
    rw [pollOn_card]
    exact .withRing _ _ card'
  rw [pollOn_eq hr] at halike ⊢
  refine ⟨⟨hready, hid ▸ hw.direction_eq, hid ▸ hw.isSome_ring?⟩, hc.alike.trans halike, ?_,
    fun hs => (hc.carries hs).trans (.setRing hr hw.direction_eq hcarries)⟩
  intro q r' hr'
  rw [Card.ring?_setRing hr] at hr'
  split at hr'
  · cases hr'
    exact hidle
  · exact hc.idle q r' hr'

theorem run_tended [Hardware η] [PortHardware η] (schedule : Schedule) (shutdown : Bool)
    {ws : List ω} (h : η) (hws : ∀ w ∈ ws, Fit direction card w) (hi : card.Idle) :
    card.Tended direction (Still η) (run schedule shutdown ws h card).2.2.2 := by
  refine run_preserves (S := Fit direction card) (C := card.Tended direction (Still η))
    (fun flags w card' hw hc => pollOn_tended flags hw hc) (fun h card' hc => ?_) schedule shutdown
    h hws (.refl hi)
  refine ⟨?_, ?_, fun hs => ?_⟩
  · exact PortHardware.act_preserves (C := card.Alike) (fun op _ hc => hc.trans (op.alike_run _)) h
      hc.alike
  · exact PortHardware.act_preserves (C := Card.Idle) (fun op _ hc => op.idle_run hc) h hc.idle
  · rw [hs h card']
    exact hc.carries hs

end Drive

namespace Session

variable {device : String} {direction : Direction} {count : Nat} {reset : Option ResetConfig}
  {still : Prop} {s s' : Session} {card card₁ card₂ started : Card}

theorem ready_of_setup (h : setup device direction count reset card = (.ok s, card₁)) {q : Queue}
    (hq : q ∈ s.queues) : q.Ready := by
  have hfresh := ((setup_cases device direction count reset card).2 s card₁ h).2 q hq
  have hstand := List.mem_map_of_mem (f := Queue.standing) hq
  rw [standing_queues h] at hstand
  obtain ⟨id, -, hs⟩ := List.mem_map.mp hstand
  exact ⟨congrArg Standing.state hs.symm, hfresh.live.2, hfresh.window_eq⟩

theorem fit_of_setup {ω : Type} [Worker ω] (hcard : card.HasQueues)
    (h : setup device direction count reset card = (.ok s, card₁))
    (hstarted : ∀ q, started.ring? q = card₁.ring? q) {w : ω} (hw : Worker.queue w ∈ s.queues) :
    Fit direction started w := by
  have hstand := List.mem_map_of_mem (f := Queue.standing) hw
  rw [standing_queues h] at hstand
  obtain ⟨id, hid, hs⟩ := List.mem_map.mp hstand
  obtain ⟨index, hi, rfl⟩ := List.mem_map.mp hid
  have hchannel : (Worker.queue w).channel.id = ⟨direction, index⟩ := congrArg Standing.id hs.symm
  obtain ⟨hrings, hcount⟩ := setup_sameRings h
  refine ⟨ready_of_setup h hw, by rw [hchannel], ?_⟩
  rw [hchannel, hstarted, hrings.2]
  exact hcard _ (Nat.lt_of_lt_of_le (List.mem_range.mp hi) hcount)

theorem tended_teardown (h : setup device direction count reset card = (.ok s, card₁))
    (hi : card.Idle) (hstarted : card₁.Alike started)
    (hrings : ∀ q, started.ring? q = card₁.ring? q)
    (hs : s'.queues.map Queue.standing = s.queues.map Queue.standing)
    (ht : started.Idle → started.Tended direction still card₂) :
    card.Tended direction still (s'.teardown card₂) := by
  have hsame : ∀ q, started.ring? q = card.ring? q :=
    fun q => (hrings q).trans ((setup_sameRings h).1.2 q)
  have ht := ht (hi.of_rings hsame)
  obtain ⟨halike, hsame'⟩ := alike_teardown h (hstarted.trans ht.alike) hs
  refine ⟨halike, ht.idle.of_rings hsame'.2, fun hs => ?_⟩
  exact ((Card.Carries.of_rings direction hsame).trans (ht.carries hs)).trans
    (.of_rings direction hsame'.2)

theorem tended_of_setup_error (hi : card.Idle) {e : RunError}
    (h : setup device direction count reset card = (.error e, card₁)) :
    card.Tended direction still card₁ := by
  obtain ⟨halike, hsame⟩ := (setup_cases device direction count reset card).1 e card₁ h
  exact .of_rings hi halike hsame.2

end Session

namespace Receive

variable {σ η : Type} {card : Card}

theorem queue_mem_workers {c : Config} {queues : List Queue} {sinks : List σ} {budgets : List Int}
    {w : RxWorker σ} (hw : w ∈ workers c queues sinks budgets) : w.queue ∈ queues := by
  induction queues, sinks, budgets using workers.induct with
  | case1 queue queues sink sinks budget budgets ih =>
    rw [workers] at hw
    rcases List.mem_cons.mp hw with rfl | hw
    · exact List.mem_cons_self
    · exact List.mem_cons_of_mem _ (ih hw)
  | case2 queues sinks budgets hn =>
    rw [workers] at hw
    · cases hw
    · exact hn

variable [ByteSink σ] [Hardware η] [PortHardware η]

theorem drive_tended {c : Config} (shutdown : Bool) {sinks : List σ} {s : Session} (h : η)
    (hws : ∀ w : RxWorker σ, w.queue ∈ s.queues → Fit .rx card w) (hi : card.Idle) :
    card.Tended .rx (Still η) (drive c shutdown sinks s h card).2.2.2.2 := by
  rw [drive, driveBy]
  cases hb : c.rx.budgets with
  | error f => exact .refl hi
  | ok budgets =>
    have hfit : ∀ w ∈ workers c s.queues sinks budgets, Fit .rx card w :=
      fun w hw => hws w (queue_mem_workers hw)
    have ht := run_tended c.schedule shutdown h hfit hi
    simp only [flushEach_card]
    split <;> exact ht

theorem run_tended (c : Config) (shutdown : Bool) (sinks : List σ) (h : η) (hcard : card.HasQueues)
    (hi : card.Idle) : card.Tended .rx (Still η) (run c shutdown sinks h card).2.2.2 := by
  rw [run, runBy]
  cases hv : c.validate with
  | error e => exact .refl hi
  | ok _ =>
    dsimp only
    split
    · exact .refl hi
    · next hn =>
      have hg : sinks.length = c.rx.queueCount := Decidable.not_not.mp hn
      split
      · next hsetup => exact tended_of_setup_error hi hsetup
      · next s card₁ hsetup =>
        have hlen : s.queues.length = c.rx.queueCount := length_queues (standing_queues hsetup)
        have hrings := ring?_pulse c.rx.reset s card₁
        have hstand := (drive_standing shutdown h (s.pulse c.rx.reset card₁) hlen
          (hg.trans hlen.symm)).2.1
        exact tended_teardown hsetup hi (alike_pulse c.rx.reset s card₁) hrings hstand
          (drive_tended shutdown h fun w hw => fit_of_setup hcard hsetup hrings hw)

end Receive

namespace Transmit

variable {σ η : Type} [PacketSource σ] [Hardware η] [PortHardware η] {card : Card}

theorem run_tended (c : Config) (shutdown : Bool) (sources : List σ) (h : η)
    (hcard : card.HasQueues) (hi : card.Idle) :
    card.Tended .tx (Still η) (run c shutdown sources h card).2.2.2 := by
  rw [run]
  cases hv : c.validate with
  | error e => exact .refl hi
  | ok _ =>
    dsimp only
    split
    · exact .refl hi
    · next hn =>
      have hg : sources.length = c.tx.queues := Decidable.not_not.mp hn
      split
      · next hsetup => exact tended_of_setup_error hi hsetup
      · next s card₁ hsetup =>
        have hlen : s.queues.length = c.tx.queues := length_queues (standing_queues hsetup)
        let ws := workers c s.queues sources
        have hw : ws.map TxWorker.queue = s.queues := map_queue_workers (hg.trans hlen.symm)
        refine tended_teardown hsetup hi (.refl card₁) (fun _ => rfl)
          (Drive.run_map_standing c.schedule shutdown hw h card₁)
          (Drive.run_tended c.schedule shutdown h fun w hm => ?_)
        exact fit_of_setup hcard hsetup (fun _ => rfl) (hw ▸ List.mem_map_of_mem hm)

end Transmit

/-- A card comes to this state by what the hardware does through the ends of the queues and by
runs, whatever becomes of them. -/
inductive Card.Reaches (card : Card) : Card → Prop where
  | refl : card.Reaches card
  | port {card' : Card} (op : PortOp) : card.Reaches card' → card.Reaches (op.run card')
  | receive {card' : Card} {σ η : Type} [ByteSink σ] [Hardware η] [PortHardware η] (c : Config)
      (shutdown : Bool) (sinks : List σ) (h : η) :
      card.Reaches card' → card.Reaches (Receive.run c shutdown sinks h card').2.2.2
  | transmit {card' : Card} {σ η : Type} [PacketSource σ] [Hardware η] [PortHardware η] (c : Config)
      (shutdown : Bool) (sources : List σ) (h : η) :
      card.Reaches card' → card.Reaches (Transmit.run c shutdown sources h card').2.2.2

namespace Card

variable {card card' : Card}

theorem idle_create {spec : CardSpec} (hspec : ∀ q, spec.capacityOf q < 2 ^ 64)
    (h : create spec = .ok card) : card.Idle := by
  intro q r hr
  obtain ⟨line, hline, rfl⟩ := Option.map_eq_some_iff.mp hr
  obtain ⟨-, r, hcreate, hline'⟩ := create_line h (create_index h hline)
  cases hline.symm.trans hline'
  exact PacketRing.idle_create (hspec q) hcreate

theorem Reaches.ports (h : card.Reaches card') (ops : List PortOp) :
    card.Reaches (PortOp.runAll ops card') :=
  PortOp.runAll_preserves (C := card.Reaches) (fun op _ h => .port op h) ops h

theorem Reaches.keeps (h : card.Reaches card') (hcard : card.HasQueues) (hi : card.Idle) :
    card.Alike card' ∧ card'.Idle := by
  induction h with
  | refl => exact ⟨.refl card, hi⟩
  | port op _ ih => exact ⟨ih.1.trans (op.alike_run _), op.idle_run ih.2⟩
  | receive c shutdown sinks h _ ih =>
    have ht := Receive.run_tended c shutdown sinks h (hcard.alike ih.1) ih.2
    exact ⟨ih.1.trans ht.alike, ht.idle⟩
  | transmit c shutdown sources h _ ih =>
    have ht := Transmit.run_tended c shutdown sources h (hcard.alike ih.1) ih.2
    exact ⟨ih.1.trans ht.alike, ht.idle⟩

end Card

/-- A receive ring before a run, after it, before a later receive run, and after that one. The later
run begins with the first packet that the first run has not retired. -/
def PacketRing.Resumes (before after later last : PacketRing) : Prop :=
  ∃ retired retired' : List Packet, before.contents = retired ++ after.contents ∧
    after.tail = before.tail + .ofNat retired.length ∧
    later.contents = retired' ++ last.contents ∧
    last.tail = after.tail + .ofNat retired'.length ∧
    (after.Straight → ∃ pushed, later.contents = after.contents ++ pushed)

/-- A run in this direction has left the card to be used as if there had been no run, but for the
packets that were retired or sent. -/
structure Card.LeftReusable (direction : Direction) (still : Prop) (card card' : Card) : Prop where
  deviceOpen_eq : card'.deviceOpen = card.deviceOpen
  isBound_eq : ∀ q, card'.isBound q = card.isBound q
  windows_eq : ∀ q r, card'.ring? q = some r → r.reserved = 0 ∧ r.exposed = 0
  setup_eq : ∀ {later later' : Card}, card.Reaches later → card'.Reaches later' →
    ∀ device direction count reset,
      (setup device direction count reset later').1 = (setup device direction count reset later).1
  carries : still → card.Carries direction card'
  resumes : still → ∀ {σ : Type} [ByteSink σ] (ops : List PortOp) (c : Config) (shutdown : Bool)
    (sinks : List σ) (q : QueueId) (r : PacketRing), q.direction = .rx → card.ring? q = some r →
      ∃ after later last, card'.ring? q = some after ∧
        (PortOp.runAll ops card').ring? q = some later ∧
        (Receive.run c shutdown sinks () (PortOp.runAll ops card')).2.2.2.ring? q = some last ∧
        r.Resumes after later last

theorem Card.Tended.resumes {direction : Direction} {still : Prop} {card card' : Card}
    (h : card.Tended direction still card') (hstill : still) (hcard : card.HasQueues)
    {σ : Type} [ByteSink σ] (ops : List PortOp) (c : Config) (shutdown : Bool) (sinks : List σ)
    {q : QueueId} {r : PacketRing} (hd : q.direction = .rx) (hr : card.ring? q = some r) :
    ∃ after later last, card'.ring? q = some after ∧
      (PortOp.runAll ops card').ring? q = some later ∧
      (Receive.run c shutdown sinks () (PortOp.runAll ops card')).2.2.2.ring? q = some last ∧
      r.Resumes after later last := by
  obtain ⟨after, hafter, hc⟩ := h.carries hstill q r hr
  obtain ⟨later, hlater, htail, hpushed⟩ := PortOp.carries_runAll ops h.idle hd hafter
  have halike : card.Alike (PortOp.runAll ops card') :=
    PortOp.runAll_preserves (C := card.Alike) (fun op _ hc => hc.trans (op.alike_run _)) ops h.alike
  have hidle : (PortOp.runAll ops card').Idle :=
    PortOp.runAll_preserves (fun op _ hc => op.idle_run hc) ops h.idle
  have hrun := Receive.run_tended c shutdown sinks () (hcard.alike halike) hidle
  obtain ⟨last, hlast, hc'⟩ := hrun.carries (fun _ _ => rfl) q later hlater
  rw [if_pos hd] at hc'
  obtain ⟨-, retired', hcontents', htail'⟩ := hc'
  obtain ⟨retired, hcontents, htail₁⟩ : ∃ retired : List Packet,
      r.contents = retired ++ after.contents ∧ after.tail = r.tail + .ofNat retired.length := by
    split at hc
    · next hdir =>
      subst hdir
      rw [hd] at hc
      exact hc.2
    · subst hc
      exact ⟨[], rfl, (UInt64.add_zero _).symm⟩
  refine ⟨after, later, last, hafter, hlater, hlast, retired, retired', hcontents, htail₁,
    hcontents', htail ▸ htail', fun hs => ?_⟩
  obtain ⟨-, pushed, hp, -⟩ := hpushed hs
  exact ⟨pushed, hp⟩

theorem Card.Tended.leftReusable {direction : Direction} {still : Prop} {card card' : Card}
    (h : card.Tended direction still card') (hcard : card.HasQueues) (hi : card.Idle) :
    card.LeftReusable direction still card' where
  deviceOpen_eq := h.alike.deviceOpen_eq
  isBound_eq := h.alike.isBound_eq
  windows_eq q r hr := ⟨(h.idle q r hr).reserved_eq, (h.idle q r hr).exposed_eq⟩
  setup_eq hlater hlater' device direction count reset := by
    have hwithout := (hlater.keeps hcard hi).1
    have hwith := (hlater'.keeps (hcard.alike h.alike) h.idle).1
    exact setup_congr (hwithout.symm.trans (h.alike.trans hwith)) device direction count reset
  carries := h.carries
  resumes hstill _ _ ops c shutdown sinks _ _ hd hr :=
    h.resumes hstill hcard ops c shutdown sinks hd hr

/-- Whatever has happened on a card, and however a run ends, the card is left to be used as if there
had been no run. -/
theorem run_leaves_reusable {spec : CardSpec} (hspec : ∀ q, spec.capacityOf q < 2 ^ 64)
    {card₀ card : Card} (hnew : Card.create spec = .ok card₀) (h : card₀.Reaches card) (c : Config)
    (shutdown : Bool) {η : Type} [Hardware η] [PortHardware η] (hw : η) :
    (∀ {σ : Type} [ByteSink σ] (sinks : List σ),
      card.LeftReusable .rx (Still η) (Receive.run c shutdown sinks hw card).2.2.2) ∧
    ∀ {σ : Type} [PacketSource σ] (sources : List σ),
      card.LeftReusable .tx (Still η) (Transmit.run c shutdown sources hw card).2.2.2 := by
  have hqueues := Card.hasQueues_create hnew
  obtain ⟨halike, hi⟩ := h.keeps hqueues (Card.idle_create hspec hnew)
  have hcard := hqueues.alike halike
  exact ⟨fun sinks => (Receive.run_tended c shutdown sinks hw hcard hi).leftReusable hcard hi,
    fun sources => (Transmit.run_tended c shutdown sources hw hcard hi).leftReusable hcard hi⟩

/-- A queue in each direction, with rings whose size does not divide the span of the index. -/
def oneEach : CardSpec where
  rxQueues := 1
  txQueues := 1
  ringCapacity := 3
  slotSize := 1

def oneEachConfig : Config where
  batchSize := 1
  rx := { iterations := 1, packetsPerIteration := [2] }
  tx := { queues := 1, packetLen := 1, rounds := 2 }

def oneEachFeed : List PortOp :=
  [.takeEnd ⟨.rx, 0⟩, .push 0 [1] [] 0, .push 0 [2] [] 0, .push 0 [3] [] 0]

def frailSinks : List ScriptedSink :=
  [{ faultAt := some 1 }]

def frailSources : List ScriptedSource :=
  [{ cues := [.fill 1, .fail] }]

/-- The packet that the first run has not retired is the first one that the later run delivers. -/
theorem oneEach_leaves_reusable :
    (∀ q, oneEach.capacityOf q < 2 ^ 64) ∧ ∃ card₀ card, Card.create oneEach = .ok card₀ ∧
      PortOp.runAll oneEachFeed card₀ = card ∧ card₀.Reaches card ∧ Still Unit ∧
      (Receive.run oneEachConfig false frailSinks () card).1 =
        .error (.refused (.workerFault ⟨.rx, 0⟩)) ∧
      card.LeftReusable .rx (Still Unit)
        (Receive.run oneEachConfig false frailSinks () card).2.2.2 ∧
      card.LeftReusable .tx (Still Unit)
        (Transmit.run oneEachConfig false frailSources () card).2.2.2 ∧
      (∃ r, card.ring? ⟨.tx, 0⟩ = some r ∧ r.Straight) ∧
      ∃ r after later last : PacketRing, r.Resumes after later last ∧ after.Straight ∧
        r.contents.map Packet.data = [[1], [2], [3]] ∧ after.contents.map Packet.data = [[3]] ∧
        later.contents.map Packet.data = [[3], [4]] ∧ last.contents = [] := by
  have hnew : Card.create oneEach = .ok _ := rfl
  have hspec : ∀ q, oneEach.capacityOf q < 2 ^ 64 := fun q => (by decide : 3 < 2 ^ 64)
  have hreaches : ∀ card : Card, card.Reaches (PortOp.runAll oneEachFeed card) :=
    fun _ => Card.Reaches.refl.ports oneEachFeed
  obtain ⟨hrx, htx⟩ := run_leaves_reusable hspec hnew (hreaches _) oneEachConfig false ()
  have hstill : Still Unit := fun _ _ => rfl
  obtain ⟨after, later, last, hafter, hlater, hlast, hresumes⟩ := (hrx frailSinks).resumes hstill
    [.push 0 [4] [] 0] oneEachConfig false ([{}] : List ScriptedSink) ⟨.rx, 0⟩ _ rfl rfl
  have holds : ∀ {o : Option PacketRing} {r : PacketRing} (P : PacketRing → Prop) [DecidablePred P],
      o = some r → o.all (fun r => decide (P r)) = true → P r := by
    rintro _ r P _ rfl h
    exact of_decide_eq_true h
  refine ⟨hspec, _, _, hnew, rfl, hreaches _, hstill, by cbv, hrx frailSinks, htx frailSources,
    ⟨_, rfl, by decide +kernel⟩, _, after, later, last, hresumes, ?_, by decide +kernel, ?_, ?_, ?_⟩
  · exact holds PacketRing.Straight hafter (by cbv)
  · exact holds (fun r => r.contents.map Packet.data = [[3]]) hafter (by cbv)
  · exact holds (fun r => r.contents.map Packet.data = [[3], [4]]) hlater (by cbv)
  · exact holds (fun r => r.contents = []) hlast (by cbv)

namespace Drive

variable {ω : Type} [Worker ω] {w w' w'' : ω} {card card' card'' : Card} {packets : Nat}
  {status : WorkerStatus} {report : WorkerReport} {shutdown : Bool}

theorem sweep_lone (schedule : Schedule) {answer : Except (Halt WorkerError) Poll}
    (h : pollOn [shutdown, false] w card = (answer, w', card'))
    (hf : failed { worker := w', ended := ending w' answer } = false) :
    sweep schedule shutdown (start [w] card) =
      { stations := [{ worker := w', ended := ending w' answer }], card := card' } := by
  simp [start, sweep, sweepStations, step, h, hf]

theorem run_lone (schedule : Schedule)
    (h : pollOn [shutdown, false] w card = (.ok (.progress packets), w', card'))
    (h' : pollOn [shutdown, false] w' card' = (.ok (.done status), w'', card''))
    (hr : Worker.report w'' = .ok report) :
    run schedule shutdown [w] () card = (.ok [report], [w''], (), card'') := by
  have hdone : ending w'' (.ok (.done status)) = some (.ok report) := by
    rw [ending, hr]
    rfl
  have hone : sweep schedule shutdown (start [w] card) = start [w'] card' := sweep_lone schedule h rfl
  have htwo := sweep_lone schedule h' (by rw [hdone]; rfl)
  rw [hdone] at htwo
  have hopen : ∀ (w : ω) (card : Card), isOver schedule (start [w] card) = false := by
    intro w card
    cases schedule <;> rfl
  have hsweeps : ∀ fuel, sweeps schedule shutdown (fuel + 2) () (start [w] card) =
      ((), { stations := [{ worker := w'', ended := some (.ok report) }], card := card'' }) := by
    intro fuel
    rw [sweeps, hopen, if_neg Bool.false_ne_true]
    change sweeps schedule shutdown (fuel + 1) () (sweep schedule shutdown (start [w] card)) = _
    rw [hone, sweeps, hopen, if_neg Bool.false_ne_true]
    change sweeps schedule shutdown fuel () (sweep schedule shutdown (start [w'] card')) = _
    rw [htwo]
    cases fuel with
    | zero => rfl
    | succ fuel => exact if_pos rfl
  have hlast : sweeps schedule shutdown (sweepsLeft [w]) () (start [w] card) =
      ((), { stations := [{ worker := w'', ended := some (.ok report) }], card := card'' }) :=
    hsweeps _
  exact congrArg (fun x => (outcome schedule x.2, x.2.stations.map (·.worker), x.1, x.2.card)) hlast

end Drive

section Overrun

open PacketRing

def sendOnly : CardSpec where
  rxQueues := 0
  txQueues := 1
  ringCapacity := 3
  slotSize := 1
  components := []

def sendConfig (batchSize : Nat) : Config where
  batchSize
  rx := { iterations := 1, packetsPerIteration := [1] }
  tx := { queues := 1, packetLen := 1, rounds := 1 }

def sending (ring : PacketRing) (events : Array Event) : Card where
  spec := sendOnly
  rx := #[]
  tx := #[{ ring }]
  registers := #[]
  events
  deviceOpen := false

def sendingOpen (ring : PacketRing) (events : Array Event) : Card where
  spec := sendOnly
  rx := #[]
  tx := #[{ ring, bound := true }]
  registers := #[]
  events
  deviceOpen := true

def sendWorker (batchSize : Nat) (packets : List Bytes) : TxWorker PileSource where
  queue := { id := ⟨.tx, 0⟩, state := .started, channel := { id := ⟨.tx, 0⟩, started := true } }
  source := ⟨packets⟩
  batchSize
  rounds := 1

def sentWorker (batchSize count bytes : Nat) (dry : Bool) : TxWorker PileSource :=
  { sendWorker batchSize [] with
    queue := ((sendWorker batchSize []).queue.lent batchSize batchSize).ended count bytes
    exhausted := dry
    sent := count
    roundsDone := 1
    polls := 1 }

variable {b count bytes : Nat} {dry : Bool} {packets : List Bytes} {ring ring' : PacketRing}
  {w w' : TxWorker PileSource} {answer : Except (Halt WorkerError) Poll} {i seen : UInt64}
  {card : Card} {events : Array Event}

theorem pollOn_sending (hid : w.queue.channel.id = ⟨.tx, 0⟩)
    (h : w.poll [false, false] ring = (answer, w', ring')) :
    pollOn [false, false] w (sendingOpen ring events) = (answer, w', sendingOpen ring' events) := by
  have hr : (sendingOpen ring events).ring? (Worker.queue w).channel.id = some ring := by
    change (sendingOpen ring events).ring? w.queue.channel.id = some ring
    rw [hid]
    rfl
  rw [pollOn_eq hr]
  change ((w.poll [false, false] ring).1, (w.poll [false, false] ring).2.1,
    Card.setRing w.queue.channel.id (w.poll [false, false] ring).2.2 _) = _
  rw [h, hid]
  rfl

theorem run_sending (events : Array Event) (hb : (sendConfig b).validate = .ok ()) (hc : count ≤ b)
    (hfit : (b : Int) ≤ budgetMax)
    (h : (sendWorker b packets).poll [false, false] ring =
      (.ok (.progress count), sentWorker b count bytes dry, ring')) :
    ∃ events', (Transmit.run (sendConfig b) false [PileSource.mk packets] ()
      (sending ring events)).2.2.2 = sending ring' events' := by
  obtain ⟨status, hlast⟩ : ∃ status, (sentWorker b count bytes dry).poll [false, false] ring' =
      (.ok (.done status), { sentWorker b count bytes dry with finished := some status }, ring') := by
    cases dry <;> exact ⟨_, rfl⟩
  have hreport := TxWorker.report_eq
    (w := { sentWorker b count bytes dry with finished := some status })
    (hc.trans_eq (Nat.one_mul b).symm) (Nat.le_refl 1) ((Int.one_mul b).trans_le hfit)
  have hs : setup (sendConfig b).device .tx (sendConfig b).tx.queues none (sending ring events) =
      (.ok { queues := [(sendWorker b packets).queue] }, sendingOpen ring
        (((events.push .deviceOpened).push (.queueOpened ⟨.tx, 0⟩)).push
          (.queueStarted ⟨.tx, 0⟩))) := rfl
  have hw : Transmit.workers (sendConfig b) [(sendWorker b packets).queue] [PileSource.mk packets] =
      [sendWorker b packets] := rfl
  rw [Transmit.run, hb]
  dsimp only
  rw [if_neg (fun h => h rfl), hs]
  dsimp only
  rw [hw, run_lone (sendConfig b).schedule (pollOn_sending rfl h) (pollOn_sending rfl hlast) hreport]
  exact ⟨_, rfl⟩

theorem TxWorker.send_of_fill {σ : Type} [PacketSource σ] {w : TxWorker σ} {len filled : Nat}
    {fill : Fill} {r r' r'' : PacketRing} {source : σ} {queue : Queue}
    (hf : fillBurst len w.queue len 0 r w.source = (.ok (filled, fill), r', source))
    (hc : w.queue.commit len filled r' = (.ok (), queue, r'')) :
    w.send len r = (.ok (.progress filled), { w with
      queue, source
      exhausted := w.exhausted || fill = .dry
      sent := w.sent + filled
      roundsDone := w.roundsDone + 1
      backoff := w.backoff.reset }, r'') := by
  rw [send, hf]
  simp only [hc]

theorem fillBurst_turn {q : Queue} (hq : q.channel.bound = true) (i : UInt64) :
    TxWorker.fillBurst 3 q 3 0 { level 2 1 i i with reserved := 3 } (PileSource.mk [[]]) =
      (.ok (1, .dry), { level 2 1 i i with reserved := 3 }, ⟨[]⟩) := by
  have hslot : ∀ k < 3, q.slot 3 k { level 2 1 i i with reserved := 3 } = .ok (.blank 1 0) := by
    intro k hk
    rw [Queue.slot, if_pos hk, Channel.slot, if_pos hq, reservedSlot, if_pos hk]
    exact congrArg Except.ok (slotAt_level 2 1 i i i k)
  have hkeep : ∀ k, replaceReserved k (.blank 1 0) { level 2 1 i i with reserved := 3 } =
      { level 2 1 i i with reserved := 3 } :=
    modifyAt_of_fixed (fun _ hs => (Array.eq_of_mem_replicate hs).symm) i
  have hone : TxWorker.fillSlot 3 0 q { level 2 1 i i with reserved := 3 } (PileSource.mk [[]]) =
      (.ok true, { level 2 1 i i with reserved := 3 }, ⟨[]⟩) := by
    rw [TxWorker.fillSlot, hslot 0 (by decide)]
    exact congrArg (fun r => (Except.ok true, r, PileSource.mk [])) (hkeep 0)
  have htwo : TxWorker.fillSlot 3 1 q { level 2 1 i i with reserved := 3 } (PileSource.mk []) =
      (.ok false, { level 2 1 i i with reserved := 3 }, ⟨[]⟩) := by
    rw [TxWorker.fillSlot, hslot 1 (by decide)]
    exact congrArg (fun r => (Except.ok false, r, PileSource.mk [])) (hkeep 1)
  rw [TxWorker.fillBurst, hone]
  dsimp only
  rw [TxWorker.fillBurst, htwo]

theorem poll_turn (h : seen = i ∨ seen = i - 1) :
    ∃ bytes, (sendWorker 3 [[]]).poll [false, false] (level 2 1 i seen) =
      (.ok (.progress 1), sentWorker 3 1 bytes true, { level 2 1 i i with head := i + 1 }) := by
  have hready : (sendWorker 3 [[]]).queue.Ready := ⟨rfl, rfl, rfl⟩
  have hlends : ((sendWorker 3 [[]]).queue.lent 3 3).Lends 3
      { level 2 1 i i with reserved := 3 } := ⟨rfl, rfl, rfl⟩
  obtain ⟨bytes, hput⟩ := hlends.put_channel (by decide : 1 ≤ 3)
  have hreserve : (level 2 1 i seen).reserve (sendWorker 3 [[]]).batchSize =
      (3, { level 2 1 i i with reserved := 3 }) := reserve_level h
  have hburst : (sendWorker 3 [[]]).burst (level 2 1 i seen) =
      TxWorker.send 3 { sendWorker 3 [[]] with
          queue := (sendWorker 3 [[]]).queue.lent 3 3, polls := 1 }
        { level 2 1 i i with reserved := 3 } := by
    rw [TxWorker.burst_of_ready hready rfl, TxWorker.lent, TxWorker.grant, hreserve]
    rfl
  have hcommit : Queue.commit 3 1 ((sendWorker 3 [[]]).queue.lent 3 3)
      { level 2 1 i i with reserved := 3 } = _ := (if_pos (by decide)).trans hput
  refine ⟨bytes, ?_⟩
  change (sendWorker 3 [[]]).burst (level 2 1 i seen) = _
  rw [hburst, TxWorker.send_of_fill (fillBurst_turn rfl i) hcommit]
  rfl

theorem Card.Reaches.turn (hr : card.Reaches (sending (level 2 1 i seen) events))
    (h : seen = i ∨ seen = i - 1) :
    ∃ events', card.Reaches (sending (level 2 1 (i + 1) i) events') := by
  obtain ⟨bytes, hpoll⟩ := poll_turn h
  obtain ⟨events', hrun⟩ := run_sending events rfl (by decide) (by decide) hpoll
  have hpop : (PortOp.pop 0).run (sending { level 2 1 i i with head := i + 1 } events') =
      sending (level 2 1 (i + 1) i) events' := by
    change sending (PacketRing.pop { level 2 1 i i with head := i + 1 }).2 events' = _
    rw [pop_level]
  refine ⟨events', ?_⟩
  rw [← hpop, ← hrun]
  exact .port _ (.transmit _ _ _ _ hr)

theorem reaches_turns (count : Nat) :
    ∃ events, (sending (level 2 1 0 0) #[]).Reaches
      (sending (level 2 1 (.ofNat (count + 1)) (.ofNat count)) events) := by
  induction count with
  | zero => exact Card.Reaches.refl.turn (.inl rfl)
  | succ count ih =>
    obtain ⟨events, hr⟩ := ih
    obtain ⟨events', hr'⟩ := hr.turn (.inr (ofNat_eq_succ_sub count))
    exact ⟨events', by rwa [ofNat_succ (count + 1)]⟩

/-- Two packets. The second has the last index before the wrap. -/
def lastTwo : PacketRing :=
  { level 2 1 (.ofNat (2 ^ 64 - 2)) (.ofNat (2 ^ 64 - 3)) with
    slots := #[⟨[2], 1, [], 0, 0⟩, .blank 1 0, ⟨[1], 1, [], 0, 0⟩]
    head := 0
    slots_pos := by decide }

def lastTwoCleared : PacketRing :=
  { lastTwo with
    slots := #[⟨[2], 0, [], 0, 0⟩, .blank 1 0, ⟨[1], 1, [], 0, 0⟩]
    cachedTail := lastTwo.tail
    slots_pos := by decide }

/-- A run has nothing to send. The slot that it is lent has index `2 ^ 64`, which wraps, and lies at
the place of a packet that the ring still holds. -/
theorem idle_run_clears_packet : ∃ card₀ card r r', Card.create sendOnly = .ok card₀ ∧
    card₀.Reaches card ∧ card.ring? ⟨.tx, 0⟩ = some r ∧
    (Transmit.run (sendConfig 1) false [PileSource.mk []] () card).2.2.2.ring? ⟨.tx, 0⟩ = some r' ∧
    r.contents = [⟨[1], [], 0⟩, ⟨[2], [], 0⟩] ∧ r'.contents = [⟨[1], [], 0⟩, ⟨[], [], 0⟩] := by
  obtain ⟨events, hr⟩ := reaches_turns (2 ^ 64 - 3)
  rw [show 2 ^ 64 - 3 + 1 = 2 ^ 64 - 2 from rfl] at hr
  have hfill : (sendWorker 2 [[1], [2]]).poll [false, false]
      (level 2 1 (.ofNat (2 ^ 64 - 2)) (.ofNat (2 ^ 64 - 3))) =
      (.ok (.progress 2), sentWorker 2 2 2 false, lastTwo) := rfl
  obtain ⟨events₁, hrun₁⟩ := run_sending events rfl (by decide) (by decide) hfill
  have hr₁ : (sending (level 2 1 0 0) #[]).Reaches (sending lastTwo events₁) := by
    rw [← hrun₁]
    exact .transmit _ _ _ _ hr
  have hclear : (sendWorker 1 []).poll [false, false] lastTwo =
      (.ok (.progress 0), sentWorker 1 0 0 true, lastTwoCleared) := rfl
  obtain ⟨events₂, hrun₂⟩ := run_sending events₁ rfl (by decide) (by decide) hclear
  exact ⟨_, _, lastTwo, lastTwoCleared, rfl, hr₁, rfl, congrArg (Card.ring? · ⟨.tx, 0⟩) hrun₂, rfl,
    rfl⟩

end Overrun

end DmaBurst
