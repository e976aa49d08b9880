import DmaBurst.Proofs.Run.Ports
import DmaBurst.Proofs.Run.Teardown
import DmaBurst.Run.Drive
import DmaBurst.Worker.Receive
import DmaBurst.Worker.Transmit

namespace DmaBurst

/-- A worker moves packets, and leaves the lifecycle of its queue alone. -/
class LawfulWorker (ω : Type) [Worker ω] : Prop where
  poll_standing : ∀ (flags : List Bool) (w : ω) (r : PacketRing),
    (Worker.queue (Worker.poll flags w r).2.1).standing = (Worker.queue w).standing

/-- What is done to the card, and not what it is done for, is what a ground keeps account of. -/
class LawfulGround (κ : Type) [Ground κ] : Prop where
  onCard_map : ∀ {α β : Type} (f : α → β) (act : Card → α × Card) (ground : κ),
    Ground.onCard (fun card => (f (act card).1, (act card).2)) ground =
      (f (Ground.onCard act ground).1, (Ground.onCard act ground).2)

instance : LawfulGround Card :=
  ⟨fun _ _ _ => rfl⟩

/-- Hardware works on rings. The journal is the driver's. -/
class LawfulHardware (η : Type) [Hardware η] : Prop where
  journal_act : ∀ (h : η) (card : Card), (Hardware.act h card).2.journal = card.journal

open LawfulWorker LawfulHardware

section Workers

variable {σ β : Type} {g : Queue → β} {r : PacketRing} (len : Nat)
  (hacquire : ∀ (max : Nat) (q : Queue) (r : PacketRing), g (q.acquire max r).2.1 = g q)
  (hput : ∀ (count : Nat) (q : Queue) (r : PacketRing), g (q.put count r).2.1 = g q)

include hput

theorem RxWorker.drain_kept [ByteSink σ] (w : RxWorker σ) :
    g (w.drain len r).2.1.queue = g w.queue := by
  have hr : g (w.queue.release len r).2.1 = g w.queue := hput len w.queue r
  rw [drain]
  dsimp only
  split
  · exact hr
  · exact hr
  · split <;> exact hr

theorem TxWorker.send_kept [PacketSource σ] (w : TxWorker σ) :
    g (w.send len r).2.1.queue = g w.queue := by
  rw [send]
  split
  · next e r' source hf =>
    change g (w.queue.abandon len r').2.1 = g w.queue
    rw [Queue.abandon]
    split <;> exact hput _ _ _
  · next filled fill r' source hf =>
    have hc : g (w.queue.commit len filled r').2.1 = g w.queue := by
      rw [Queue.commit]
      split <;> exact hput _ _ _
    dsimp only
    split <;> exact hc

theorem TxWorker.rest_kept (w : TxWorker σ) : g (w.rest r).2.1.queue = g w.queue := by
  have hr : g (w.queue.release 0 r).2.1 = g w.queue := hput 0 w.queue r
  rw [rest]
  split
  · next hq =>
    rw [hq] at hr
    exact hr
  · next hq =>
    rw [hq] at hr
    exact hr

include hacquire

theorem RxWorker.poll_kept [ByteSink σ] (flags : List Bool) (w : RxWorker σ) (r : PacketRing) :
    g (w.poll flags r).2.1.queue = g w.queue := by
  rw [poll]
  split
  · rfl
  · split
    · rfl
    · have ha := hacquire w.batchSize w.queue r
      rw [burst]
      dsimp only
      split
      · next hq =>
        rw [hq] at ha
        exact ha
      · next hq =>
        rw [hq] at ha
        exact (drain_kept _ hput _).trans ha

theorem TxWorker.poll_kept [PacketSource σ] (flags : List Bool) (w : TxWorker σ)
    (r : PacketRing) : g (w.poll flags r).2.1.queue = g w.queue := by
  rw [poll]
  split
  · rfl
  · split
    · rfl
    · have ha := hacquire w.batchSize w.queue r
      rw [burst]
      dsimp only
      split
      · next hq =>
        rw [hq] at ha
        exact ha
      · next hq =>
        rw [hq] at ha
        exact (rest_kept hput _).trans ha
      · next hq =>
        rw [hq] at ha
        exact (send_kept _ hput _).trans ha

omit hacquire hput

instance [ByteSink σ] : LawfulWorker (RxWorker σ) :=
  ⟨RxWorker.poll_kept (fun max _ _ => Queue.acquire_standing max)
    fun count _ _ => Queue.put_standing count⟩

instance [PacketSource σ] : LawfulWorker (TxWorker σ) :=
  ⟨TxWorker.poll_kept (fun max _ _ => Queue.acquire_standing max)
    fun count _ _ => Queue.put_standing count⟩

end Workers

instance {η : Type} [Hardware η] [PortHardware η] : LawfulHardware η :=
  ⟨fun h card => PortHardware.act_preserves (C := fun card' => card'.journal = card.journal)
    (fun op card' => (op.journal_run card').trans) h rfl⟩

namespace Drive

variable {ω η : Type} [Worker ω]

theorem pollOn_card (flags : List Bool) (w : ω) (card : Card) :
    (pollOn flags w card).2.2 = (card.withRing (Worker.queue w).channel.id fun r =>
      (((Worker.poll flags w r).1, (Worker.poll flags w r).2.1), (Worker.poll flags w r).2.2)).2 :=
  rfl

section Kept

variable {β : Type} {g : ω → β}
  (hg : ∀ (flags : List Bool) (w : ω) (r : PacketRing), g (Worker.poll flags w r).2.1 = g w)

include hg

theorem pollOn_kept (flags : List Bool) (w : ω) (card : Card) :
    g (pollOn flags w card).2.1 = g w := by
  obtain ⟨r, hr⟩ := card.exists_withRing_fst (Worker.queue w).channel.id fun r =>
    (((Worker.poll flags w r).1, (Worker.poll flags w r).2.1), (Worker.poll flags w r).2.2)
  have hw : (pollOn flags w card).2.1 = (Worker.poll flags w r).2.1 := congrArg (·.2) hr
  rw [hw, hg]

theorem step_kept (shutdown : Bool) (s : Station ω) (abort : Bool) (card : Card) :
    g (step shutdown s abort card).1.worker = g s.worker := by
  rw [step]
  split
  · rfl
  · exact pollOn_kept hg [shutdown, abort] s.worker card

theorem sweepStations_kept (schedule : Schedule) (shutdown : Bool) (stations : List (Station ω))
    (abort : Bool) (card : Card) :
    (sweepStations schedule shutdown stations abort card).1.map (fun s => g s.worker) =
      stations.map fun s => g s.worker := by
  induction stations generalizing abort card with
  | nil => rfl
  | cons s rest ih =>
    rw [sweepStations]
    split
    · rfl
    · exact List.cons_eq_cons.mpr ⟨step_kept hg shutdown s abort card, ih _ _⟩

theorem sweeps_kept [Hardware η] (schedule : Schedule) (shutdown : Bool) (fuel : Nat) (h : η)
    (f : Floor ω) :
    (sweeps schedule shutdown fuel h f).2.stations.map (fun s => g s.worker) =
      f.stations.map fun s => g s.worker := by
  induction fuel generalizing h f with
  | zero => rfl
  | succ fuel ih =>
    rw [sweeps]
    split
    · rfl
    · exact (ih _ _).trans (sweepStations_kept hg schedule shutdown f.stations f.abort _)

theorem run_kept [Hardware η] (schedule : Schedule) (shutdown : Bool) (ws : List ω) (h : η)
    (card : Card) : (run schedule shutdown ws h card).2.1.map g = ws.map g := by
  have hs := sweeps_kept hg schedule shutdown (sweepsLeft ws) h
    { stations := ws.map fun worker => { worker }, card }
  simp only [List.map_map, Function.comp_def] at hs
  simp only [run, List.map_map, Function.comp_def, hs]

end Kept

section Preserved

variable {S : ω → Prop} {C : Card → Prop}
  (hpoll : ∀ (flags : List Bool) (w : ω) (card : Card), S w → C card →
    S (pollOn flags w card).2.1 ∧ C (pollOn flags w card).2.2)

include hpoll

theorem step_preserves (shutdown : Bool) {s : Station ω} (abort : Bool) {card : Card}
    (hs : S s.worker) (hc : C card) :
    S (step shutdown s abort card).1.worker ∧ C (step shutdown s abort card).2.2 := by
  rw [step]
  split
  · exact ⟨hs, hc⟩
  · exact hpoll [shutdown, abort] s.worker card hs hc

theorem sweepStations_preserves (schedule : Schedule) (shutdown : Bool)
    {stations : List (Station ω)} (abort : Bool) {card : Card} (hs : ∀ s ∈ stations, S s.worker)
    (hc : C card) :
    (∀ s ∈ (sweepStations schedule shutdown stations abort card).1, S s.worker) ∧
      C (sweepStations schedule shutdown stations abort card).2.2 := by
  induction stations generalizing abort card with
  | nil => exact ⟨hs, hc⟩
  | cons s rest ih =>
    rw [sweepStations]
    split
    · exact ⟨hs, hc⟩
    · obtain ⟨hfirst, hrest⟩ := List.forall_mem_cons.mp hs
      obtain ⟨hs', hc'⟩ := step_preserves hpoll shutdown abort hfirst hc
      obtain ⟨hs'', hc''⟩ := ih (step shutdown s abort card).2.1 hrest hc'
      exact ⟨List.forall_mem_cons.mpr ⟨hs', hs''⟩, hc''⟩

variable [Hardware η] (hact : ∀ (h : η) (card : Card), C card → C (Hardware.act h card).2)

include hact

theorem sweeps_preserves (schedule : Schedule) (shutdown : Bool) (fuel : Nat) (h : η) {f : Floor ω}
    (hs : ∀ s ∈ f.stations, S s.worker) (hc : C f.card) :
    (∀ s ∈ (sweeps schedule shutdown fuel h f).2.stations, S s.worker) ∧
      C (sweeps schedule shutdown fuel h f).2.card := by
  induction fuel generalizing h f with
  | zero => exact ⟨hs, hc⟩
  | succ fuel ih =>
    rw [sweeps]
    split
    · exact ⟨hs, hc⟩
    · obtain ⟨hs', hc'⟩ := sweepStations_preserves hpoll schedule shutdown f.abort hs
        (hact h f.card hc)
      exact ih (Hardware.act h f.card).1 hs' hc'

theorem run_preserves (schedule : Schedule) (shutdown : Bool) {ws : List ω} (h : η) {card : Card}
    (hs : ∀ w ∈ ws, S w) (hc : C card) : C (run schedule shutdown ws h card).2.2.2 := by
  refine (sweeps_preserves hpoll hact schedule shutdown (sweepsLeft ws) h
    (f := { stations := ws.map fun worker => { worker }, card }) ?_ hc).2
  exact List.forall_mem_map.mpr hs

end Preserved

theorem run_standing [LawfulWorker ω] [Hardware η] [LawfulHardware η] (schedule : Schedule)
    (shutdown : Bool) (ws : List ω) (h : η) (card : Card) :
    (run schedule shutdown ws h card).2.1.map (fun w => (Worker.queue w).standing) =
        ws.map (fun w => (Worker.queue w).standing) ∧
      (run schedule shutdown ws h card).2.2.2.journal = card.journal := by
  refine ⟨run_kept poll_standing schedule shutdown ws h card, ?_⟩
  refine run_preserves (S := fun _ => True) (C := fun card' => card'.journal = card.journal)
    (fun flags w card' _ hj => ⟨trivial, ?_⟩) (fun h card' hj => (journal_act h card').trans hj)
    schedule shutdown h (fun _ _ => trivial) rfl
  rw [pollOn_card, Card.journal_withRing, hj]

theorem run_alike [Hardware η] [PortHardware η] (schedule : Schedule) (shutdown : Bool)
    (ws : List ω) (h : η) (card : Card) : card.Alike (run schedule shutdown ws h card).2.2.2 := by
  refine run_preserves (S := fun _ => True) (C := card.Alike)
    (fun flags w card' _ hc => ⟨trivial, hc.trans ?_⟩) (fun h card' hc => ?_) schedule shutdown h
    (fun _ _ => trivial) (.refl card)
  · rw [pollOn_card]
    exact .withRing _ _ card'
  · exact PortHardware.act_preserves (C := card.Alike) (fun op _ hc => hc.trans (op.alike_run _)) h hc

theorem run_map_standing [LawfulWorker ω] [Hardware η] [LawfulHardware η] (schedule : Schedule)
    (shutdown : Bool) {ws : List ω} {qs : List Queue} (hw : ws.map Worker.queue = qs) (h : η)
    (card : Card) : ((run schedule shutdown ws h card).2.1.map Worker.queue).map Queue.standing =
      qs.map Queue.standing := by
  rw [← hw, List.map_map, List.map_map]
  exact (run_standing schedule shutdown ws h card).1

end Drive

end DmaBurst
