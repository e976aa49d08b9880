import DmaBurst.Proofs.Contract.Calls
import DmaBurst.Proofs.Lifecycle.Words

namespace DmaBurst

namespace Handle

variable {h : Handle} {card : Card} {op : HandleOp}

def refusal? : HandleOp → Handle → Card → Option QueueError
  | .start, ⟨q, none⟩, card =>
    match q.start card with
    | .ok _ => none
    | .error e => some e
  | .acquire max, ⟨q, none⟩, card =>
    match (card.withRing q.channel.id (acquireOn max q)).1.1 with
    | .error (.refused e) => some e
    | _ => none
  | _, _, _ => none

structure Writes (events : List Event) (h : Handle) (card : Card) (h' : Handle) (card' : Card) :
    Prop where
  leads : Leads h.queue.channel.id h.queue.state h'.queue.state events
  journal_eq : card'.journal = card.journal ++ events
  deviceOpen_eq : card'.deviceOpen = card.deviceOpen
  id_eq : h'.queue.id = h.queue.id

theorem writes_refl (h : Handle) (card : Card) : Writes [] h card h card :=
  ⟨.refl _ _, (List.append_nil _).symm, rfl, rfl⟩

theorem writes_start (q : Queue) (card : Card) : ∃ events,
    Writes events ⟨q, none⟩ card (act .start ⟨q, none⟩ card).1 (act .start ⟨q, none⟩ card).2 := by
  rw [act]
  split
  · next hs =>
    obtain ⟨hstate, rfl, rfl⟩ := Queue.start_eq hs
    refine ⟨_, .single rfl fun w hw => append_started ?_, Card.journal_record _ _, rfl, rfl⟩
    rcases hstate with hstate | hstate
    · exact hstate ▸ hw
    · have hw' : w ∈ upTo q.channel.id q.state := hw
      rw [hstate] at hw'
      exact hw'
  · exact ⟨[], writes_refl _ _⟩

theorem writes_stop {q : Queue} (hs : Sane ⟨q, none⟩ card) : ∃ events,
    Writes events ⟨q, none⟩ card (act .stop ⟨q, none⟩ card).1 (act .stop ⟨q, none⟩ card).2 := by
  rw [act, Queue.stop_eq]
  by_cases hstate : q.state = .started
  · have hstarted : q.channel.started = true := hs.started_iff.mp hstate
    rw [if_pos hstate, Channel.stop_eq, if_pos hstarted]
    refine ⟨_, .single rfl fun w hw => append_stopped ?_, Card.journal_record _ _, rfl, rfl⟩
    exact hstate ▸ hw
  · rw [if_neg hstate]
    exact ⟨[], writes_refl _ _⟩

theorem leads_close (s : Standing) (hs : s.state = .started ↔ s.started = true)
    (hb : s.bound = true ↔ s.state ≠ .closed) : Leads s.id s.state .closed s.closeEvents := by
  obtain ⟨state, id, bound, started⟩ := s
  have hclosed : ∀ w ∈ upTo id .opened, w ++ [.queueClosed id] ∈ upTo id .closed :=
    fun _ => append_closed
  cases state with
  | closed => exact .refl id .closed
  | opened | stopped =>
    obtain rfl : bound = true := hb.mpr (by simp)
    obtain rfl : started = false := by simpa using hs
    exact .single rfl hclosed
  | started =>
    obtain rfl : bound = true := hb.mpr (by simp)
    obtain rfl : started = true := hs.mp rfl
    exact (Leads.single rfl fun _ => append_stopped).trans (.single rfl hclosed)

theorem writes_close {q : Queue} (hs : Sane ⟨q, none⟩ card) : ∃ events,
    Writes events ⟨q, none⟩ card (act .close ⟨q, none⟩ card).1 (act .close ⟨q, none⟩ card).2 := by
  have hclosed : (q.close card).1.state = .closed := (Queue.sameRings_close q card).2.2.1
  have hleads := leads_close q.standing hs.started_iff hs.coherent.bound_iff
  refine ⟨_, ?_, q.close_journal card, q.deviceOpen_close card, ?_⟩
  · rw [act]
    dsimp only
    rw [hclosed]
    exact hleads
  · rw [act]
    dsimp only
    rw [Queue.close_eq, Queue.stop_eq]
    split
    · rfl
    · split <;> rfl

theorem writes_of_standing {α : Type} {q q' : Queue} {burst burst' : Option Nat}
    (F : PacketRing → α × PacketRing) (hs : q'.standing = q.standing) (hid : q'.id = q.id) :
    Writes [] ⟨q, burst⟩ card ⟨q', burst'⟩ (card.withRing q.channel.id F).2 := by
  have hstate : q'.state = q.state := congrArg Standing.state hs
  refine ⟨?_, ?_, card.deviceOpen_withRing _ F, hid⟩
  · dsimp only
    rw [hstate]
    exact .refl _ _
  · rw [card.journal_withRing, List.append_nil]

theorem writes_acquire (max : Nat) (q : Queue) (card : Card) :
    Writes [] ⟨q, none⟩ card (act (.acquire max) ⟨q, none⟩ card).1
      (act (.acquire max) ⟨q, none⟩ card).2 := by
  rw [act_acquire]
  obtain ⟨r, hr⟩ := card.exists_withRing_fst q.channel.id (acquireOn max q)
  rw [hr]
  exact writes_of_standing _ (Queue.acquire_standing max) (Queue.id_acquire max)

theorem writes_finish {F : Queue → PacketRing → Except Fault Unit × Queue × PacketRing} {q : Queue}
    {len : Nat} (hF : ∀ r, (F q r).2.1.standing = q.standing ∧ (F q r).2.1.id = q.id)
    (card : Card) : Writes [] ⟨q, some len⟩ card (finish F q card).1 (finish F q card).2 := by
  obtain ⟨r, hr⟩ := card.exists_withRing_fst q.channel.id fun r => (F q r).2
  rw [finish]
  dsimp only
  rw [hr]
  exact writes_of_standing _ (hF r).1 (hF r).2

theorem act_writes {h : Handle} (hs : h.Sane card) (op : HandleOp) :
    ∃ events, Writes events h card (h.act op card).1 (h.act op card).2 := by
  obtain ⟨q, _ | len⟩ := h
  · cases op with
    | start => exact writes_start q card
    | stop => exact writes_stop hs
    | close => exact writes_close hs
    | acquire max => exact ⟨[], writes_acquire max q card⟩
    | edit | release | commit | abandon => exact ⟨[], writes_refl _ _⟩
  · cases op with
    | edit offset change =>
      rw [act]
      split
      · exact ⟨[], writes_of_standing _ rfl rfl⟩
      · exact ⟨[], writes_refl _ _⟩
    | release =>
      exact ⟨[], writes_finish (fun _ => ⟨Queue.release_standing len, Queue.id_put len⟩) card⟩
    | commit count =>
      rw [act]
      split
      · refine ⟨[], writes_finish (fun _ => ⟨Queue.commit_standing len count, ?_⟩) card⟩
        rw [Queue.commit]
        split <;> exact Queue.id_put _
      · exact ⟨[], writes_refl _ _⟩
    | abandon =>
      refine ⟨[], writes_finish (fun _ => ⟨Queue.abandon_standing len, ?_⟩) card⟩
      rw [Queue.abandon]
      split <;> exact Queue.id_put _
    | start | stop | close | acquire => exact ⟨[], writes_refl _ _⟩

theorem act_of_closed {h : Handle} (hs : h.Sane card) (hb : h.queue.channel.bound = false)
    (op : HandleOp) : h.act op card = (h, card) := by
  obtain ⟨hsame, -, -, hnone⟩ := act_closed hs.coherent hb op card
  have hclosed : h.queue.state = .closed := by
    by_contra hn
    exact Bool.false_ne_true (hb.symm.trans (hs.coherent.bound_iff.mpr hn))
  have hcalls : h.calls op = [] := by
    obtain ⟨q, burst⟩ := h
    obtain rfl : burst = none := hnone
    cases op <;> simp [calls, show q.state = .closed from hclosed]
  have hreplay := (hs.honest op).replay
  rw [hcalls] at hreplay
  exact Prod.ext hsame (congrArg (·.2.2) hreplay).symm

theorem refusal?_start (q : Queue) (card : Card) :
    (refusal? .start ⟨q, none⟩ card).isSome ↔
      (q.state ≠ .opened ∧ q.state ≠ .stopped) ∨ q.channel.id ∈ card.spec.refusesStart := by
  rw [refusal?, Queue.start, Channel.start]
  by_cases hs : q.state = .opened ∨ q.state = .stopped
  · rw [if_pos hs]
    by_cases hr : q.channel.id ∈ card.spec.refusesStart
    · simp [hr]
    · rw [if_neg hr]
      simpa [hr] using fun h => hs.resolve_left h
  · rw [if_neg hs]
    simpa using Or.inl (not_or.mp hs)

theorem refusal?_acquire {q : Queue} (hs : Sane ⟨q, none⟩ card) (max : Nat) :
    (refusal? (.acquire max) ⟨q, none⟩ card).isSome ↔ q.state ≠ .started := by
  obtain ⟨r, hr⟩ := card.exists_withRing_fst q.channel.id (acquireOn max q)
  rw [refusal?, hr, acquireOn]
  by_cases hstate : q.state = .started
  · have hready : q.Ready := ⟨hstate, hs.coherent.bound_iff.mpr (by simp [hstate]),
      hs.coherent.window_eq⟩
    simp [Queue.acquire_ready hready, hstate]
  · simp [Queue.acquire_refused hstate, hstate]

/-- What is refused changes nothing: neither the queue with its statistics nor the card. -/
theorem act_of_refused {h : Handle} (hs : h.Sane card) {e : QueueError}
    (hr : h.refusal? op card = some e) : h.act op card = (h, card) := by
  obtain ⟨q, _ | len⟩ := h
  · cases op with
    | start =>
      rw [refusal?] at hr
      rw [act]
      split at hr
      · cases hr
      · next he => rw [he]
    | acquire max =>
      have hstate := (refusal?_acquire hs max).mp (Option.isSome_of_eq_some hr)
      refine Prod.ext (act_acquire_refused hstate max card).1 ?_
      rw [act_acquire]
      exact Card.withRing_snd_of_id fun r => by rw [acquireOn, Queue.acquire_refused hstate]
    | stop | close | edit | release | commit | abandon => cases hr
  · cases op <;> cases hr

end Handle

end DmaBurst
