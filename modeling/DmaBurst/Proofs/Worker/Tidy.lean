import DmaBurst.Proofs.Ring.Idle
import DmaBurst.Proofs.Worker.ReceiveStream
import DmaBurst.Proofs.Worker.TransmitStream

namespace DmaBurst

open PacketRing

/-- A worker in this direction ends every burst that it begins, whatever becomes of the burst.
Between two polls its queue has lent nothing and its ring is idle. -/
class TidyWorker (direction : Direction) (ω : Type) [Worker ω] : Prop where
  poll_tidy : ∀ (flags : List Bool) (w : ω) (r : PacketRing), (Worker.queue w).Ready →
    (Worker.queue w).channel.id.direction = direction → r.Idle →
      (Worker.queue (Worker.poll flags w r).2.1).Ready ∧ (Worker.poll flags w r).2.2.Idle ∧
        Carries direction r (Worker.poll flags w r).2.2

namespace RxWorker

variable {σ : Type} [ByteSink σ] {w : RxWorker σ} {r : PacketRing}

theorem burst_ends (h : w.Steady r) :
    (w.burst r).2.1.queue = w.served r ∧ (w.burst r).2.2 = r.takeOff w.batchSize := by
  rw [burst]
  simp only [h.acquire, drain, h.writeBurst, h.release]
  rcases writeEach ((w.due r).map Packet.data) w.sink with ⟨_ | _, s⟩
  · exact ⟨rfl, rfl⟩
  · dsimp only
    split <;> exact ⟨rfl, rfl⟩

theorem poll_tidy (flags : List Bool) (hq : w.queue.Ready)
    (hd : w.queue.channel.id.direction = .rx) (hr : r.Idle) :
    (w.poll flags r).2.1.queue.Ready ∧ (w.poll flags r).2.2.Idle ∧
      Carries .rx r (w.poll flags r).2.2 := by
  obtain ⟨status, hp⟩ | ⟨hp, -⟩ := poll_cases flags w r
  · rw [hp]
    exact ⟨hq, hr, .refl .rx r⟩
  · have hsteady : w.Steady r := ⟨hq, hd, hr.sound, hr.fits⟩
    obtain ⟨hqueue, hring⟩ := burst_ends hsteady
    rw [hp, hring]
    exact ⟨(hsteady.served hqueue).ready, hr.takeOff _, hr.sound.carries_takeOff _⟩

instance : TidyWorker .rx (RxWorker σ) :=
  ⟨fun flags _ _ hq hd hr => poll_tidy flags hq hd hr⟩

end RxWorker

namespace TxWorker

variable {σ : Type} [PacketSource σ] {q : Queue} {w : TxWorker σ} {r r' : PacketRing} {s : σ}
  {len : Nat}

theorem fillSlot_rewrites (offset : Nat) : r.Rewrites (fillSlot len offset q r s).2.1 := by
  cases hslot : q.slot len offset r with
  | error f =>
    rw [fillSlot, hslot]
    exact .refl r
  | ok slot =>
    have hmem : slot ∈ r.slots := by
      rw [Queue.slot, Channel.slot, reservedSlot] at hslot
      split at hslot
      · split at hslot
        · split at hslot
          · cases hslot
            exact Array.getElem_mem _
          · cases hslot
        · cases hslot
      · cases hslot
    rw [fillSlot_eq hslot]
    refine .replaceReserved offset fun d n hf => ?_
    have hfits := hf slot hmem
    exact Pull.fits_fill hfits ((PacketSource.length_area _ _).trans hfits.data_length)

theorem fillBurst_rewrites (count offset : Nat) :
    r.Rewrites (fillBurst len q count offset r s).2.1 := by
  induction count generalizing offset r s with
  | zero => exact .refl r
  | succ count ih =>
    have hslot : r.Rewrites (fillSlot len offset q r s).2.1 := fillSlot_rewrites offset
    rw [fillBurst]
    split
    · next heq =>
      rw [heq] at hslot
      exact hslot
    · next heq =>
      rw [heq] at hslot
      exact hslot
    · next heq =>
      rw [heq] at hslot
      exact hslot.trans (ih _)

def Ended (r : PacketRing) (q : Queue) (r' : PacketRing) : Prop :=
  q.Ready ∧ ∃ count ≤ r.reserved, r' = { r with head := r.head + .ofNat count, reserved := 0 }

section Lent

variable (h : q.Lends len r) (hs : q.state = .started) (hd : q.channel.id.direction = .tx)

include h hs hd

theorem put_ended {count : Nat} (hc : count ≤ len) :
    Ended r (q.put count r).2.1 (q.put count r).2.2 := by
  have hres := h.windowOf_eq
  rw [hd, windowOf] at hres
  obtain ⟨bytes, hput⟩ := h.put_channel hc
  rw [hput, Channel.closeWindow, hd]
  exact ⟨⟨hs, h.bound, rfl⟩, count, hres.symm ▸ hc, rfl⟩

theorem commit_ended (count : Nat) :
    Ended r (q.commit len count r).2.1 (q.commit len count r).2.2 := by
  rw [Queue.commit]
  split
  · next hc => exact put_ended h hs hd hc
  · exact put_ended h hs hd (Nat.zero_le len)

theorem abandon_ended : Ended r (q.abandon len r).2.1 (q.abandon len r).2.2 := by
  rw [Queue.abandon, hd]
  exact put_ended h hs hd (Nat.zero_le len)

end Lent

omit [PacketSource σ] in
theorem rest_ended (h : w.queue.Lends len r) (hs : w.queue.state = .started)
    (hd : w.queue.channel.id.direction = .tx) : Ended r (w.rest r).2.1.queue (w.rest r).2.2 := by
  have hrelease : Ended r (w.queue.release 0 r).2.1 (w.queue.release 0 r).2.2 :=
    put_ended h hs hd (Nat.zero_le len)
  rw [rest]
  split <;>
  · next heq =>
    rw [heq] at hrelease
    exact hrelease

theorem send_ended (h : w.queue.Lends len r) (hs : w.queue.state = .started)
    (hd : w.queue.channel.id.direction = .tx) :
    ∃ r', r.Rewrites r' ∧ Ended r' (w.send len r).2.1.queue (w.send len r).2.2 := by
  rcases hfill : fillBurst len w.queue len 0 r w.source with ⟨answer, r', source⟩
  have hw : r.Rewrites (fillBurst len w.queue len 0 r w.source).2.1 := fillBurst_rewrites len 0
  rw [hfill] at hw
  have hlends : w.queue.Lends len r' := by
    refine ⟨h.bound, h.window_eq, ?_⟩
    rw [← h.windowOf_eq, hd, windowOf, windowOf, hw.reserved_eq]
  refine ⟨r', hw, ?_⟩
  rw [send, hfill]
  rcases answer with e | ⟨filled, fill⟩
  · exact abandon_ended hlends hs hd
  · have hcommit := commit_ended hlends hs hd filled
    dsimp only
    split <;> exact hcommit

theorem burst_ended (hq : w.queue.Ready) (hd : w.queue.channel.id.direction = .tx)
    (r : PacketRing) : ∃ r', (r.reserve w.batchSize).2.Rewrites r' ∧
      Ended r' (w.burst r).2.1.queue (w.burst r).2.2 := by
  have hlends : (w.lent r).queue.Lends (w.grant r) (r.reserve w.batchSize).2 := by
    refine ⟨hq.bound, rfl, ?_⟩
    rw [show (w.lent r).queue.channel.id.direction = .tx from hd, windowOf]
    rfl
  rw [burst_of_ready hq hd]
  split
  · exact ⟨_, .refl _, rest_ended hlends hq.started hd⟩
  · exact send_ended hlends hq.started hd

theorem carries_burst (hq : w.queue.Ready) (hd : w.queue.channel.id.direction = .tx) (hr : r.Idle)
    (hlt : w.roundsDone < w.rounds) (hs : r.Straight) : ∃ sent : List Packet,
      (w.burst r).2.2.contents = r.contents ++ sent ∧
        (w.burst r).2.2.head = r.head + .ofNat sent.length := by
  obtain ⟨c, f, hshow, hf, ha⟩ := hr.shows hs
  have hsteady : w.Steady r c f := ⟨hq, hd, hshow, hf⟩
  have hgranted : w.grant r ≤ f.capacity - f.queue.length := by
    rw [grant, hshow.granted]
    exact Nat.min_le_left _ _
  have hcap := hshow.capacity_eq
  have hlen := hshow.length_queue
  have hfull := hshow.length_le
  have htail := Nat.le_trans hshow.stands.tail_le hshow.stands.seenHead_le
  obtain ⟨sent, answer, w', r', hburst, hworked⟩ := hsteady.burst ha (by omega) hlt
  obtain ⟨c', hc, hsteady'⟩ := hworked.steady
  rw [hburst]
  exact ⟨sent, hshow.contents_append ha hsteady'.shows rfl rfl hc⟩

theorem poll_tidy (flags : List Bool) (hq : w.queue.Ready)
    (hd : w.queue.channel.id.direction = .tx) (hr : r.Idle) :
    (w.poll flags r).2.1.queue.Ready ∧ (w.poll flags r).2.2.Idle ∧
      Carries .tx r (w.poll flags r).2.2 := by
  obtain ⟨⟨status, hp⟩, -⟩ | ⟨hp, -, hlt⟩ := poll_cases flags w r
  · rw [hp]
    exact ⟨hq, hr, .refl .tx r⟩
  · rw [hp]
    obtain ⟨r', hw, hready, count, hc, hring⟩ := burst_ended hq hd r
    obtain ⟨-, ht, hseen⟩ := r.reserve_fields w.batchSize
    have htail : (w.burst r).2.2.tail = r.tail := by
      rw [hring]
      exact (congrArg PacketRing.tail hw.eq).trans ht
    refine ⟨hready, hring ▸ hr.publish hw hc, htail, fun hs => ⟨?_, carries_burst hq hd hr hlt hs⟩⟩
    refine hs.of_tail ?_ htail ?_
    · rw [hring]
      exact hw.capacity_eq.trans (r.capacity_reserve w.batchSize)
    · rw [hring]
      have hsame := congrArg PacketRing.cachedTail hw.eq
      exact hseen.imp hsame.trans hsame.trans

instance : TidyWorker .tx (TxWorker σ) :=
  ⟨fun flags _ _ hq hd hr => poll_tidy flags hq hd hr⟩

end TxWorker

end DmaBurst
