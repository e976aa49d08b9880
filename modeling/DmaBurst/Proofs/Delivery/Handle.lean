import DmaBurst.Proofs.Delivery.Rig

namespace DmaBurst

namespace Handle

variable {h : Handle} {q : Queue} {card card' : Card} {r : PacketRing} {c : PacketRing.Counts}
  {f : Fifo}
  {bound len count : Nat}

/-- The queue is driven only while it is held without a burst, and acquires only when started. -/
structure Coherent (h : Handle) : Prop where
  window_eq : h.queue.channel.window = h.burst
  bound_iff : h.queue.channel.bound = true ↔ h.queue.state ≠ .closed
  started : h.burst.isSome → h.queue.state = .started

theorem Coherent.start {q' : Queue} (hc : Coherent ⟨q, none⟩)
    (h : q.start card = .ok (q', card')) : Coherent ⟨q', none⟩ := by
  obtain ⟨hs, rfl, -⟩ := Queue.start_eq h
  have hopen : q.state ≠ .closed := by
    intro hn
    simp [hn] at hs
  exact ⟨hc.window_eq, ⟨fun _ => by simp, fun _ => hc.bound_iff.mpr hopen⟩, fun _ => rfl⟩

theorem Coherent.stop (hc : Coherent ⟨q, none⟩) (card : Card) :
    Coherent ⟨(q.stop card).1, none⟩ := by
  rw [Queue.stop_eq, Channel.stop_eq]
  by_cases h : q.state = .started
  · rw [if_pos h]
    have hopen : q.state ≠ .closed := by simp [h]
    exact ⟨hc.window_eq, ⟨fun _ => by simp, fun _ => hc.bound_iff.mpr hopen⟩,
      fun hn => by cases hn⟩
  · rw [if_neg h]
    exact hc

theorem Coherent.close (hc : Coherent ⟨q, none⟩) (card : Card) :
    Coherent ⟨(q.close card).1, none⟩ := by
  obtain ⟨-, -, hs, -, hw, hb⟩ := Queue.sameRings_close q card
  refine ⟨hw.trans hc.window_eq, ⟨fun hn => ?_, fun hn => absurd hs hn⟩, fun hn => by cases hn⟩
  by_cases h : q.state = .closed
  · rw [Queue.close_eq, if_pos h] at hn
    exact absurd h (hc.bound_iff.mp hn)
  · exact absurd ((hb h).symm.trans hn) Bool.false_ne_true

def acquireOn (max : Nat) (q : Queue) (r : PacketRing) :
    (Except (Halt QueueError) Nat × Queue) × PacketRing :=
  (((q.acquire max r).1, (q.acquire max r).2.1), (q.acquire max r).2.2)

theorem act_acquire (max : Nat) (q : Queue) (card : Card) :
    act (.acquire max) ⟨q, none⟩ card =
      (⟨(card.withRing q.channel.id (acquireOn max q)).1.2,
        (card.withRing q.channel.id (acquireOn max q)).1.1.toOption⟩,
        (card.withRing q.channel.id (acquireOn max q)).2) := rfl

theorem finish_id {F : Queue → PacketRing → Except Fault Unit × Queue × PacketRing}
    (hF : ∀ r, (F q r).2.1.standing = q.standing) (card : Card) :
    (finish F q card).1.queue.channel.id = q.channel.id := by
  obtain ⟨r, hr⟩ := card.exists_withRing_fst q.channel.id fun r => (F q r).2
  exact (congrArg (fun p : Queue => p.channel.id) hr).trans (congrArg Standing.id (hF r))

theorem act_id (op : HandleOp) (h : Handle) (card : Card) :
    (h.act op card).1.queue.channel.id = h.queue.channel.id := by
  obtain ⟨q, _ | len⟩ := h
  · cases op with
    | start =>
      rw [act]
      split
      · next hs =>
        obtain ⟨-, rfl, -⟩ := Queue.start_eq hs
        rfl
      · rfl
    | stop =>
      have hc := (Queue.sameRings_stop q card).2.2
      rw [act, hc]
    | close => exact (Queue.sameRings_close q card).2.2.2.1
    | acquire max =>
      obtain ⟨r, hr⟩ := card.exists_withRing_fst q.channel.id (acquireOn max q)
      exact (congrArg (fun x => x.2.channel.id) hr).trans
        (congrArg Standing.id (Queue.acquire_standing max))
    | edit | release | commit | abandon => rfl
  · cases op with
    | edit offset change =>
      rw [act]
      split <;> rfl
    | release => exact finish_id (fun _ => Queue.release_standing len) card
    | commit count =>
      rw [act]
      split
      · exact finish_id (fun _ => Queue.commit_standing len count) card
      · rfl
    | abandon => exact finish_id (fun _ => Queue.abandon_standing len) card
    | start | stop | close | acquire => rfl

theorem act_frame (op : HandleOp) (h : Handle) (card : Card) :
    (h.act op card).2.spec = card.spec ∧
      ∀ p, p ≠ h.queue.channel.id → (h.act op card).2.ring? p = card.ring? p ∧
        (h.act op card).2.isBound p = card.isBound p := by
  have hring : ∀ {α : Type} (id : QueueId) (F : PacketRing → α × PacketRing),
      (card.withRing id F).2.spec = card.spec ∧ ∀ p, p ≠ id →
        (card.withRing id F).2.ring? p = card.ring? p ∧
          (card.withRing id F).2.isBound p = card.isBound p := by
    intro α id F
    refine ⟨card.spec_withRing id F, fun p hp => ⟨?_, card.isBound_withRing id p F⟩⟩
    rw [card.ring?_withRing, if_neg (Ne.symm hp)]
  obtain ⟨q, _ | len⟩ := h
  · cases op with
    | start =>
      rw [act]
      split
      · next hs =>
        obtain ⟨-, -, rfl⟩ := Queue.start_eq hs
        exact ⟨rfl, fun p _ => ⟨card.ring?_record _ p, card.isBound_record _ p⟩⟩
      · exact ⟨rfl, fun _ _ => ⟨rfl, rfl⟩⟩
    | stop =>
      obtain ⟨hs, hb, -⟩ := Queue.sameRings_stop q card
      exact ⟨hs.1, fun p _ => ⟨hs.2 p, hb p⟩⟩
    | close =>
      obtain ⟨hs, hb, -⟩ := Queue.sameRings_close q card
      exact ⟨hs.1, fun p hp => ⟨hs.2 p, hb p hp⟩⟩
    | acquire max => exact hring q.channel.id (acquireOn max q)
    | edit | release | commit | abandon => exact ⟨rfl, fun _ _ => ⟨rfl, rfl⟩⟩
  · cases op with
    | edit offset change =>
      rw [act]
      split
      · exact hring q.channel.id _
      · exact ⟨rfl, fun _ _ => ⟨rfl, rfl⟩⟩
    | release => exact hring q.channel.id fun r => (q.release len r).2
    | abandon => exact hring q.channel.id fun r => (q.abandon len r).2
    | commit count =>
      rw [act]
      split
      · exact hring q.channel.id fun r => (q.commit len count r).2
      · exact ⟨rfl, fun _ _ => ⟨rfl, rfl⟩⟩
    | start | stop | close | acquire => exact ⟨rfl, fun _ _ => ⟨rfl, rfl⟩⟩

theorem isBound_act_burst (op : HandleOp) (len : Nat) (q : Queue) (card : Card) (p : QueueId) :
    (act op ⟨q, some len⟩ card).2.isBound p = card.isBound p := by
  cases op with
  | edit offset change =>
    rw [act]
    split
    · exact card.isBound_withRing _ p _
    · rfl
  | release => exact card.isBound_withRing q.channel.id p fun r => (q.release len r).2
  | abandon => exact card.isBound_withRing q.channel.id p fun r => (q.abandon len r).2
  | commit count =>
    rw [act]
    split
    · exact card.isBound_withRing q.channel.id p fun r => (q.commit len count r).2
    · rfl
  | start | stop | close | acquire => rfl

theorem sent_of_none (q : Queue) (op : HandleOp) (card : Card) : sent op ⟨q, none⟩ card = [] := by
  cases hd : q.channel.id.direction <;> cases op <;> simp [sent, hd]

theorem received_of_none (q : Queue) (op : HandleOp) (card : Card) :
    received op ⟨q, none⟩ card = [] := by
  cases hd : q.channel.id.direction <;> cases op <;> simp [received, hd]

theorem act_acquire_refused {q : Queue} (h : q.state ≠ .started) (max : Nat) (card : Card) :
    (act (.acquire max) ⟨q, none⟩ card).1 = ⟨q, none⟩ ∧
      card.SameRings (act (.acquire max) ⟨q, none⟩ card).2 ∧
      ∀ p, (act (.acquire max) ⟨q, none⟩ card).2.isBound p = card.isBound p := by
  have hr : ∀ r, q.acquire max r = (.error (.refused (.protocolViolation q.id
      (.acquire q.channel.id.direction) q.state)), q, r) :=
    fun r => Queue.acquire_refused h max r
  rw [act_acquire]
  obtain ⟨r, hf⟩ := card.exists_withRing_fst q.channel.id (acquireOn max q)
  refine ⟨by rw [hf, acquireOn, hr]; rfl, ⟨card.spec_withRing _ _, fun p => ?_⟩,
    fun p => card.isBound_withRing _ p _⟩
  rw [card.ring?_withRing]
  split
  · cases card.ring? p with
    | none => rfl
    | some r => exact congrArg some (by simp only [acquireOn, hr])
  · rfl

theorem act_closed (hc : h.Coherent) (hb : h.queue.channel.bound = false) (op : HandleOp)
    (card : Card) :
    (h.act op card).1 = h ∧ card.SameRings (h.act op card).2 ∧
      (∀ p, (h.act op card).2.isBound p = card.isBound p) ∧ h.burst = none := by
  obtain ⟨q, burst⟩ := h
  have hclosed : q.state = .closed := by
    by_contra hn
    exact Bool.false_ne_true (hb.symm.trans (hc.bound_iff.mpr hn))
  have hnone : burst = none := by
    cases burst with
    | none => rfl
    | some len => cases hclosed.symm.trans (hc.started rfl)
  subst hnone
  have hkeep : act op ⟨q, none⟩ card = (⟨q, none⟩, card) →
      (act op ⟨q, none⟩ card).1 = ⟨q, none⟩ ∧ card.SameRings (act op ⟨q, none⟩ card).2 ∧
        (∀ p, (act op ⟨q, none⟩ card).2.isBound p = card.isBound p) ∧
        (none : Option Nat) = none := by
    intro ha
    rw [ha]
    exact ⟨rfl, .refl card, fun _ => rfl, rfl⟩
  cases op with
  | start =>
    have hs : q.start card = .error (.protocolViolation q.id .start q.state) := by
      rw [Queue.start, if_neg (by simp [hclosed])]
    exact hkeep (by rw [act, hs])
  | stop =>
    have hs : q.stop card = (q, card) := by
      rw [Queue.stop_eq, if_neg (by simp [hclosed])]
    exact hkeep (by rw [act, hs])
  | close =>
    have hs : q.close card = (q, card) := by
      rw [Queue.close_eq, if_pos hclosed]
    exact hkeep (by rw [act, hs])
  | acquire max =>
    obtain ⟨h1, h2, h3⟩ := act_acquire_refused (q := q) (by simp [hclosed]) max card
    exact ⟨h1, h2, h3, rfl⟩
  | edit | release | commit | abandon => exact hkeep rfl

theorem act_bound (hc : h.Coherent) {op : HandleOp}
    (hb : (h.act op card).1.queue.channel.bound = true) :
    h.queue.channel.bound = true ∧
      (h.act op card).2.isBound h.queue.channel.id = card.isBound h.queue.channel.id := by
  cases hbound : h.queue.channel.bound with
  | false =>
    rw [(act_closed hc hbound op card).1, hbound] at hb
    exact absurd hb Bool.false_ne_true
  | true =>
    refine ⟨rfl, ?_⟩
    obtain ⟨q, _ | len⟩ := h
    · cases op with
      | start =>
        rw [act]
        split
        · next hs =>
          obtain ⟨-, -, rfl⟩ := Queue.start_eq hs
          exact card.isBound_record _ _
        · rfl
      | stop => exact (Queue.sameRings_stop q card).2.1 _
      | close =>
        obtain ⟨-, -, -, -, -, hclose⟩ := Queue.sameRings_close q card
        exact absurd ((hclose (hc.bound_iff.mp hbound)).symm.trans hb) Bool.false_ne_true
      | acquire max => exact card.isBound_withRing _ _ (acquireOn max q)
      | edit | release | commit | abandon => rfl
    · exact isBound_act_burst op len q card _

end Handle

namespace Rig

variable {rig : Rig} {name : Nat}

theorem handles_onQueue_of_ne {n : Nat} (op : HandleOp) (hne : n ≠ name) :
    (step (.onQueue n op) rig).handles name = rig.handles name := by
  rw [step]
  cases rig.handles n with
  | none => rfl
  | some g => exact Function.update_of_ne (Ne.symm hne) _ _

end Rig

end DmaBurst
