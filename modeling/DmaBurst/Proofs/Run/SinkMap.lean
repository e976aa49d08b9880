import DmaBurst.Proofs.Card.Lines
import DmaBurst.Run.Scene

namespace DmaBurst

structure SinkMap {σ τ : Type} [ByteSink σ] [ByteSink τ] (φ : σ → τ) : Prop where
  write_map : ∀ (bytes : Bytes) (s : σ),
    ByteSink.write bytes (φ s) = ((ByteSink.write bytes s).1, φ (ByteSink.write bytes s).2)
  patience_map : ∀ s : σ, ByteSink.patience (φ s) = ByteSink.patience s

namespace SinkMap

variable {σ τ : Type} [ByteSink σ] [ByteSink τ] {φ : σ → τ}

theorem writeAll (h : SinkMap φ) (bytes : Bytes) (s : σ) :
    writeAll bytes (φ s) = ((DmaBurst.writeAll bytes s).1, φ (DmaBurst.writeAll bytes s).2) := by
  fun_induction DmaBurst.writeAll bytes s with
  | case1 s => rw [DmaBurst.writeAll]
  | case2 s b rest t hw => rw [DmaBurst.writeAll, h.write_map, hw]
  | case3 s b rest n t hw ih =>
    rw [DmaBurst.writeAll, h.write_map, hw]
    exact ih
  | case4 s b rest t hw hlt ih =>
    rw [DmaBurst.writeAll, h.write_map, hw]
    dsimp only
    rw [h.patience_map, h.patience_map, if_pos hlt]
    exact ih
  | case5 s b rest t hw hlt =>
    rw [DmaBurst.writeAll, h.write_map, hw]
    dsimp only
    rw [h.patience_map, h.patience_map, if_neg hlt]
  | case6 s b rest e t hw => rw [DmaBurst.writeAll, h.write_map, hw]
  | case7 s b rest f t hw => rw [DmaBurst.writeAll, h.write_map, hw]

theorem writeBurst (h : SinkMap φ) (q : Queue) (r : PacketRing) (count offset : Nat) (s : σ) :
    RxWorker.writeBurst q r count offset (φ s) =
      ((RxWorker.writeBurst q r count offset s).1,
        φ (RxWorker.writeBurst q r count offset s).2) := by
  induction count generalizing offset s with
  | zero => rfl
  | succ count ih =>
    rw [RxWorker.writeBurst, RxWorker.writeBurst]
    cases q.channel.packet offset r with
    | error f => rfl
    | ok p =>
      dsimp only
      rw [h.writeAll]
      rcases DmaBurst.writeAll p.data s with ⟨_ | _, t⟩
      · rfl
      · exact ih (offset + 1) t

end SinkMap

namespace RxWorker

variable {σ τ : Type} {φ : σ → τ}

variable [ByteSink σ] [ByteSink τ]

theorem drain_map (h : SinkMap φ) (len : Nat) (w : RxWorker σ) (r : PacketRing) :
    (w.mapSink φ).drain len r =
      ((w.drain len r).1, (w.drain len r).2.1.mapSink φ, (w.drain len r).2.2) := by
  have hw : writeBurst (w.mapSink φ).queue r len 0 (w.mapSink φ).sink =
      ((writeBurst w.queue r len 0 w.sink).1, φ (writeBurst w.queue r len 0 w.sink).2) :=
    h.writeBurst w.queue r len 0 w.sink
  have hq : (w.mapSink φ).queue = w.queue := rfl
  rw [drain, drain, hw, hq]
  rcases writeBurst w.queue r len 0 w.sink with ⟨_ | _, t⟩
  · rfl
  · rcases w.queue.release len r with ⟨_ | _, q, r'⟩
    · rfl
    · dsimp only
      split <;> rfl

theorem poll_map (h : SinkMap φ) (flags : List Bool) (w : RxWorker σ) (r : PacketRing) :
    (w.mapSink φ).poll flags r =
      ((w.poll flags r).1, (w.poll flags r).2.1.mapSink φ, (w.poll flags r).2.2) := by
  have hfinished : (w.mapSink φ).finished = w.finished := rfl
  have hverdict : (w.mapSink φ).verdict flags = w.verdict flags := rfl
  rw [poll, poll, hfinished, hverdict]
  cases w.finished with
  | some status => rfl
  | none =>
    cases w.verdict flags with
    | some status => rfl
    | none =>
      have hacquire : (w.mapSink φ).queue.acquire (w.mapSink φ).batchSize r =
          w.queue.acquire w.batchSize r := rfl
      dsimp only
      rw [burst, burst]
      dsimp only
      rw [hacquire]
      rcases w.queue.acquire w.batchSize r with ⟨_ | len, q, r'⟩
      · rfl
      · exact drain_map h len { w with polls := w.polls + 1, queue := q } r'

end RxWorker

theorem Card.withRing_map {α β : Type} (g : α → β) (q : QueueId)
    (f : PacketRing → α × PacketRing) (card : Card) :
    card.withRing q (fun r => (g (f r).1, (f r).2)) =
      (g (card.withRing q f).1, (card.withRing q f).2) := by
  obtain ⟨direction, index⟩ := q
  cases direction <;> rfl

theorem Drive.pollOn_map {σ τ : Type} [ByteSink σ] [ByteSink τ] {φ : σ → τ} (h : SinkMap φ)
    (flags : List Bool) (w : RxWorker σ) (card : Card) :
    pollOn flags (w.mapSink φ) card =
      ((pollOn flags w card).1, (pollOn flags w card).2.1.mapSink φ,
        (pollOn flags w card).2.2) := by
  have hring := card.withRing_map (fun x => (x.1, x.2.mapSink φ)) w.queue.channel.id fun r =>
    (((w.poll flags r).1, (w.poll flags r).2.1), (w.poll flags r).2.2)
  simp only [pollOn, Worker.poll, Worker.queue, RxWorker.poll_map h]
  exact congrArg (fun x => (x.1.1, x.1.2, x.2)) hring

section Written

variable {σ : Type} [ByteSink σ] {P : σ → Prop}
  (hwrite : ∀ (bytes : Bytes) (s : σ), P s → P (ByteSink.write bytes s).2)

include hwrite

theorem writeAll_preserves (bytes : Bytes) {s : σ} (h : P s) : P (writeAll bytes s).2 := by
  fun_induction writeAll bytes s with
  | case1 s => exact h
  | case3 s b rest n t hw ih | case4 s b rest t hw hlt ih =>
    have ht := hwrite (b :: rest) s h
    rw [hw] at ht
    exact ih ht
  | case2 s b rest t hw | case5 s b rest t hw hlt | case6 s b rest e t hw
  | case7 s b rest f t hw =>
    have ht := hwrite (b :: rest) s h
    rw [hw] at ht
    exact ht

namespace RxWorker

theorem writeBurst_preserves (q : Queue) (r : PacketRing) (count offset : Nat) {s : σ} (h : P s) :
    P (writeBurst q r count offset s).2 := by
  induction count generalizing offset s with
  | zero => exact h
  | succ count ih =>
    rw [writeBurst]
    cases q.channel.packet offset r with
    | error f => exact h
    | ok p =>
      have hw := writeAll_preserves hwrite p.data h
      dsimp only
      split
      · next ht =>
        rw [ht] at hw
        exact ih (offset + 1) hw
      · next ht =>
        rw [ht] at hw
        exact hw

theorem drain_preserves (len : Nat) {w : RxWorker σ} (r : PacketRing) (h : P w.sink) :
    P (w.drain len r).2.1.sink := by
  have hw := writeBurst_preserves hwrite w.queue r len 0 h
  rw [drain]
  dsimp only
  split
  · exact hw
  · exact hw
  · split <;> exact hw

theorem poll_preserves (flags : List Bool) {w : RxWorker σ} (r : PacketRing) (h : P w.sink) :
    P (w.poll flags r).2.1.sink := by
  rw [poll]
  split
  · exact h
  · split
    · exact h
    · rw [burst]
      dsimp only
      split
      · exact h
      · exact drain_preserves hwrite _ _ h

end RxWorker

theorem Drive.pollOn_preserves (flags : List Bool) {w : RxWorker σ} (card : Card) (h : P w.sink) :
    P (Drive.pollOn flags w card).2.1.sink := by
  obtain ⟨r, hr⟩ := card.exists_withRing_fst (Worker.queue w).channel.id fun r =>
    (((Worker.poll flags w r).1, (Worker.poll flags w r).2.1), (Worker.poll flags w r).2.2)
  have hw : (Drive.pollOn flags w card).2.1 = (Worker.poll flags w r).2.1 := congrArg (·.2) hr
  rw [hw]
  exact RxWorker.poll_preserves hwrite flags r h

end Written

end DmaBurst
