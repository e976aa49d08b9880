import DmaBurst.Proofs.Queue.Burst
import DmaBurst.Proofs.Ring.Window
import DmaBurst.Proofs.Worker.Sink
import DmaBurst.Worker.Receive

namespace DmaBurst

theorem Budget.consume_eq {b : Budget} {packets : Nat} (hb : 0 ≤ b.remaining)
    (hp : (packets : Int) ≤ budgetMax) :
    b.consume packets = { b with remaining := b.remaining - packets } := by
  simp only [consume, budgetMin, budgetMax] at hp ⊢
  congr 1
  omega

namespace RxWorker

variable {σ : Type} {w : RxWorker σ} {r : PacketRing}

structure Steady (w : RxWorker σ) (r : PacketRing) : Prop where
  ready : w.queue.Ready
  direction_eq : w.queue.channel.id.direction = .rx
  sound : r.Sound
  fits : r.Fits

def due (w : RxWorker σ) (r : PacketRing) : List Packet :=
  r.contents.take w.batchSize

def served (w : RxWorker σ) (r : PacketRing) : Queue :=
  (w.queue.lent w.batchSize (w.due r).length).ended (w.due r).length
    ((w.due r).map Packet.data).flatten.length

theorem due_eq (w : RxWorker σ) (r : PacketRing) :
    w.due r = (List.range (w.due r).length).map fun k =>
      ((r.peek w.batchSize).2.slotAt (r.peek w.batchSize).2.tail k).packet := by
  refine List.ext_getElem (by simp) fun k hk hk' => ?_
  obtain ⟨hs, -, ht⟩ := r.peek_fields w.batchSize
  simp only [due, List.getElem_take, PacketRing.contents, List.getElem_map, List.getElem_range,
    PacketRing.slotAt, PacketRing.position, hs, ht]

variable [ByteSink σ]

theorem writeBurst_eq {q : Queue} (packet : Nat → Packet) {count offset : Nat}
    (h : ∀ k, offset ≤ k → k < offset + count → q.channel.packet k r = .ok (packet k)) (s : σ) :
    writeBurst q r count offset s =
      writeEach ((List.range' offset count).map fun k => (packet k).data) s := by
  induction count generalizing offset s with
  | zero => rfl
  | succ count ih =>
    have hfirst := h offset (Nat.le_refl _) (by omega)
    have hrest := fun s => ih (fun k (hk : offset + 1 ≤ k) hk' => h k (by omega) (by omega)) s
    rw [List.range'_succ, List.map_cons, writeEach, writeBurst, hfirst]
    dsimp only
    rcases writeAll (packet offset).data s with ⟨_ | _, t⟩
    · rfl
    · exact hrest t

namespace Steady

omit [ByteSink σ]

theorem length_due (h : w.Steady r) : (r.peek w.batchSize).1 = (w.due r).length := by
  obtain ⟨c, hc⟩ := h.sound
  rw [hc.peek_fst, due, List.length_take, Nat.min_comm]

theorem length_due_le (h : w.Steady r) : (w.due r).length ≤ r.capacity := by
  obtain ⟨c, hc⟩ := h.sound
  have := hc.head_le
  have := hc.occupied
  rw [due, List.length_take, PacketRing.length_contents]
  omega

theorem exposed_peek (max : Nat) (r : PacketRing) : (r.peek max).2.exposed = (r.peek max).1 := rfl

theorem acquire (h : w.Steady r) :
    w.queue.acquire w.batchSize r = (.ok (w.due r).length,
      w.queue.lent w.batchSize (w.due r).length, (r.peek w.batchSize).2) := by
  rw [Queue.acquire_ready h.ready, Channel.openWindow, h.direction_eq]
  simp only [h.length_due]

theorem lends (h : w.Steady r) :
    (w.queue.lent w.batchSize (w.due r).length).Lends (w.due r).length (r.peek w.batchSize).2 := by
  refine ⟨h.ready.bound, rfl, ?_⟩
  have hd : (w.queue.lent w.batchSize (w.due r).length).channel.id.direction = .rx := h.direction_eq
  rw [hd, PacketRing.windowOf, exposed_peek, h.length_due]

theorem entry_eq (h : w.Steady r) (k : Nat) :
    (w.queue.lent w.batchSize (w.due r).length).entry k (r.peek w.batchSize).2 =
      (r.peek w.batchSize).2.slotAt (r.peek w.batchSize).2.tail k := by
  have hd : (w.queue.lent w.batchSize (w.due r).length).channel.id.direction = .rx := h.direction_eq
  rw [Queue.entry, hd]

theorem byteCount_eq (h : w.Steady r) :
    (w.queue.lent w.batchSize (w.due r).length).byteCount (w.due r).length
      (r.peek w.batchSize).2 = ((w.due r).map Packet.data).flatten.length := by
  rw [List.length_flatten, List.map_map]
  conv_rhs => rw [due_eq]
  simp only [Queue.byteCount, h.entry_eq, List.map_map, Function.comp_def]

theorem release (h : w.Steady r) :
    (w.queue.lent w.batchSize (w.due r).length).release (w.due r).length (r.peek w.batchSize).2 =
      (.ok (), w.served r, r.takeOff w.batchSize) := by
  obtain ⟨d, n, hf⟩ := h.fits
  rw [← (r.peek_fields w.batchSize).1] at hf
  rw [Queue.release, h.lends.put hf (Nat.le_refl _), h.byteCount_eq]
  have hd : (w.queue.lent w.batchSize (w.due r).length).channel.id.direction = .rx := h.direction_eq
  rw [Channel.closeWindow, hd]
  rfl

theorem writeBurst [ByteSink σ] (h : w.Steady r) (s : σ) :
    RxWorker.writeBurst (w.queue.lent w.batchSize (w.due r).length) (r.peek w.batchSize).2
      (w.due r).length 0 s = writeEach ((w.due r).map Packet.data) s := by
  rw [writeBurst_eq (fun k =>
    ((r.peek w.batchSize).2.slotAt (r.peek w.batchSize).2.tail k).packet)]
  · conv_rhs => rw [due_eq]
    rw [List.map_map, List.range_eq_range']
    rfl
  · intro k _ hk
    have hexp : k < (r.peek w.batchSize).2.exposed := by
      rw [exposed_peek, h.length_due]
      omega
    have hbound : (w.queue.lent w.batchSize (w.due r).length).channel.bound = true := h.ready.bound
    rw [Channel.packet, if_pos hbound, PacketRing.exposedSlot, if_pos hexp]
    rfl

theorem burst_of_written [ByteSink σ] {s : σ} (h : w.Steady r)
    (hw : writeEach ((w.due r).map Packet.data) w.sink = (.ok (), s))
    (hdue : ((w.due r).length : Int) ≤ budgetMax) (hb : 0 < w.budget.remaining) :
    ∃ backoff, w.burst r =
      (.ok (if (w.due r).length = 0 then .idle else .progress (w.due r).length),
        { w with
          polls := w.polls + 1
          queue := w.served r
          sink := s
          budget := { w.budget with remaining := w.budget.remaining - (w.due r).length }
          backoff },
        r.takeOff w.batchSize) := by
  rw [burst]
  simp only [h.acquire, drain, h.writeBurst, hw, h.release]
  by_cases hz : (w.due r).length = 0
  · rw [if_pos hz, if_pos hz, hz]
    refine ⟨w.backoff.idle, ?_⟩
    simp only [Int.natCast_zero, Int.sub_zero]
  · rw [if_neg hz, if_neg hz, Budget.consume_eq (Int.le_of_lt hb) hdue]
    exact ⟨w.backoff.reset, rfl⟩

theorem burst_of_refused [ByteSink σ] {s : σ} {e : Halt IoError} (h : w.Steady r)
    (hw : writeEach ((w.due r).map Packet.data) w.sink = (.error e, s)) :
    w.burst r = (.error (e.map (.sink w.queue.id)),
      { w with polls := w.polls + 1, queue := w.served r, sink := s }, r.takeOff w.batchSize) := by
  rw [burst]
  simp only [h.acquire, drain, h.writeBurst, hw, h.release]
  rfl

end Steady

end RxWorker

end DmaBurst
