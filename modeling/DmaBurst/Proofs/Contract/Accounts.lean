import DmaBurst.Proofs.Contract.Kept
import DmaBurst.Proofs.Ring.Idle
import Mathlib.Data.List.Basic

namespace DmaBurst

section Fits

variable {r : PacketRing} {q : Queue}

theorem Queue.fits_acquire (h : r.Fits) (max : Nat) (q : Queue) : (q.acquire max r).2.2.Fits := by
  have hget : (q.channel.get max r).2.2.Fits := by
    rw [Channel.get]
    split
    · exact h
    · split
      · exact h
      · cases hd : q.channel.id.direction with
        | rx => exact h.of_slots (r.peek_fields max).1
        | tx => exact h.reserve max
  rw [acquire]
  split
  · split
    · next heq =>
      rw [heq] at hget
      exact hget
    · next heq =>
      rw [heq] at hget
      exact hget
  · exact h

theorem Queue.fits_editSlot (h : r.Fits) (len offset : Nat) (change : SlotEdit) (q : Queue) :
    ((q.editSlot len offset change.apply r).toOption.getD r).Fits := by
  rw [editSlot, Channel.editSlot, PacketRing.editReserved]
  split
  · split
    · split
      · exact h.modifyAt _ _ fun d n s hf => hf.edit change
      · exact h
    · exact h
  · exact h

theorem Queue.slots_put (count : Nat) (q : Queue) (r : PacketRing) :
    (q.put count r).2.2.slots = r.slots := by
  have hsettle : ∀ granted r', q.channel.settle count granted r = .ok r' → r'.slots = r.slots := by
    intro granted r' hs
    have hretire : r.retire granted = .ok r' → r'.slots = r.slots := by
      intro hs
      rw [PacketRing.retire] at hs
      split at hs <;> cases hs
      rfl
    have hpublish : r.publish count = .ok r' → r'.slots = r.slots := by
      intro hs
      rw [PacketRing.publish] at hs
      split at hs <;> cases hs
      rfl
    rw [Channel.settle] at hs
    split at hs
    · split at hs
      · exact hretire hs
      · cases hs
    · split at hs
      · cases hs
      · split at hs
        · exact hpublish hs
        · cases hs
  have hput : (q.channel.put count r).2.2.slots = r.slots := by
    rw [Channel.put]
    split
    · rfl
    · dsimp only
      split
      · next heq => exact hsettle _ _ heq
      · rfl
  rw [put]
  split
  · rfl
  · split
    · next heq =>
      rw [heq] at hput
      exact hput
    · next heq =>
      rw [heq] at hput
      exact hput

end Fits

@[simp] theorem Queue.stats_stop (q : Queue) (card : Card) :
    (q.stop card).1.stats = q.stats := by
  rw [stop_eq]
  split <;> rfl

@[simp] theorem Queue.stats_close (q : Queue) (card : Card) :
    (q.close card).1.stats = q.stats := by
  rw [close_eq]
  split
  · rfl
  · exact q.stats_stop card

def Card.Fitting (card : Card) : Prop :=
  ∀ q r, card.ring? q = some r → r.Fits

variable {card card' : Card} {rig : Rig}

namespace Card.Fitting

theorem withRing {α : Type} (h : card.Fitting) (p : QueueId) {F : PacketRing → α × PacketRing}
    (hF : ∀ r, r.Fits → (F r).2.Fits) : (card.withRing p F).2.Fitting := by
  intro q r hr
  rw [card.ring?_withRing] at hr
  split at hr
  · obtain ⟨r', hr', rfl⟩ := Option.map_eq_some_iff.mp hr
    exact hF r' (h _ _ hr')
  · exact h _ _ hr

theorem of_sameRings (h : card.Fitting) (hs : card.SameRings card') : card'.Fitting :=
  fun q r hr => h q r (hs.2 q ▸ hr)

theorem finish (h : card.Fitting)
    {F : Queue → PacketRing → Except Fault Unit × Queue × PacketRing} (q : Queue)
    (hF : ∀ r, ∃ count, (F q r).2 = (q.put count r).2) : (Handle.finish F q card).2.Fitting := by
  refine h.withRing (F := fun r => (F q r).2) _ fun r hr => ?_
  obtain ⟨count, hput⟩ := hF r
  rw [hput]
  exact hr.of_slots (Queue.slots_put count q r)

theorem act (h : card.Fitting) (op : HandleOp) (hd : Handle) : (hd.act op card).2.Fitting := by
  obtain ⟨q, _ | len⟩ := hd
  · cases op with
    | start =>
      rw [Handle.act]
      split
      · next hs =>
        obtain ⟨-, -, rfl⟩ := Queue.start_eq hs
        exact h.of_sameRings (.record _ _)
      · exact h
    | stop => exact h.of_sameRings (Queue.sameRings_stop q card).1
    | close => exact h.of_sameRings (Queue.sameRings_close q card).1
    | acquire max =>
      exact h.withRing (F := Handle.acquireOn max q) _ fun r hr => Queue.fits_acquire hr max q
    | edit | release | commit | abandon => exact h
  · cases op with
    | edit offset change =>
      rw [Handle.act]
      split
      · refine h.withRing
          (F := fun r => ((), (q.editSlot len offset change.apply r).toOption.getD r)) _
          fun r hr => ?_
        exact Queue.fits_editSlot hr len offset change q
      · exact h
    | release => exact h.finish q fun r => ⟨len, rfl⟩
    | commit count =>
      rw [Handle.act]
      split
      · refine h.finish q fun r => ?_
        rw [Queue.commit]
        split
        · exact ⟨count, rfl⟩
        · exact ⟨0, rfl⟩
      · exact h
    | abandon =>
      refine h.finish q fun r => ?_
      rw [Queue.abandon]
      split
      · exact ⟨len, rfl⟩
      · exact ⟨0, rfl⟩
    | start | stop | close | acquire => exact h

theorem step (h : rig.card.Fitting) (op : RigOp) : (rig.step op).card.Fitting := by
  cases op with
  | openDevice identifier => exact h.of_sameRings (Card.SameRings.openDevice identifier rig.card).1
  | closeDevice => exact h.of_sameRings (Card.SameRings.closeDevice rig.card).1
  | openQueue name q =>
    rw [Rig.step]
    split
    · next hopen =>
      obtain ⟨-, -, rfl⟩ := Queue.openOn_eq hopen
      exact h.of_sameRings ((Card.SameRings.setBound _ _ _).trans (.record _ _))
    · exact h
  | onQueue name op =>
    rw [Rig.step]
    split
    · exact h
    · exact h.act op _
  | push index data header flags =>
    exact h.withRing (F := PacketRing.push data header flags) _
      fun r hr => hr.push data header flags
  | pop index => exact h.withRing (F := PacketRing.pop) _ fun r hr => hr.of_slots r.pop_slots
  | drain index =>
    exact h.withRing (F := PacketRing.drain) _ fun r hr => hr.of_slots (r.slots_popAtMost _)

theorem use (h : rig.card.Fitting) (u : RigUse) : (rig.use u).card.Fitting := by
  cases u with
  | op op => exact h.step op
  | look name look =>
    rw [Rig.use]
    split
    · exact h.step (.onQueue name _)
    · exact h

theorem useAll (h : rig.card.Fitting) (us : List RigUse) : (rig.useAll us).card.Fitting := by
  induction us generalizing rig with
  | nil => exact h
  | cons u us ih => exact ih (h.use u)

theorem ofCard {spec : CardSpec} (hcard : Card.create spec = .ok card) : card.Fitting := by
  intro q r hr
  obtain ⟨line, hl, rfl⟩ := Option.map_eq_some_iff.mp hr
  obtain ⟨-, r, hcreate, hline⟩ := Card.create_line hcard (Card.create_index hcard hl)
  cases hl.symm.trans hline
  exact PacketRing.fits_create hcreate

end Card.Fitting

/-- A burst that has ended: how many of its entries count, and what its holder saw of those. -/
structure Ending where
  direction : Direction
  len : Nat
  count : Nat
  packets : List Packet

def Ending.bytes (e : Ending) : Nat :=
  (e.packets.map fun p => p.data.length).sum

structure Ending.Exact (e : Ending) : Prop where
  length_packets : e.packets.length = e.count
  count_le : e.count ≤ e.len
  count_rx : e.direction = .rx → e.count = e.len

namespace Handle

def grant? (op : HandleOp) (h : Handle) (card : Card) : Option (Nat × Nat) :=
  match op, h.burst with
  | .acquire max, none => (h.act op card).1.burst.map (max, ·)
  | _, _ => none

/-- How many entries count of a burst of `len` that this operation ends: on the receive side all of
them, on the transmit side those that are sent. -/
def accounted (direction : Direction) (len : Nat) : HandleOp → Option Nat
  | .release => some len
  | .commit count =>
    match direction with
    | .rx => none
    | .tx => some (if count ≤ len then count else 0)
  | .abandon =>
    match direction with
    | .rx => some len
    | .tx => some 0
  | _ => none

def ending? (op : HandleOp) (h : Handle) (card : Card) : Option Ending :=
  h.burst.bind fun len => (accounted h.queue.channel.id.direction len op).map fun count =>
    ⟨h.queue.channel.id.direction, len, count, h.view count card⟩

end Handle

/-- Between two states of its books a queue was granted these bursts, and those bursts ended. -/
structure Booked (s s' : QueueStats) (held held' : Bool) (grants : List (Nat × Nat))
    (endings : List Ending) : Prop where
  acquires_eq : s'.acquires = s.acquires + grants.length
  releases_eq : s'.releases = s.releases + endings.length
  empty_eq : s'.emptyAcquires = s.emptyAcquires + grants.countP (·.2 = 0)
  short_eq : s'.shortAcquires = s.shortAcquires + grants.countP fun g => 0 < g.2 ∧ g.2 < g.1
  packets_eq : s'.packets = s.packets + (endings.map Ending.count).sum
  bytes_eq : s'.bytes = s.bytes + (endings.map Ending.bytes).sum
  exact : ∀ e ∈ endings, e.Exact
  held_eq : held.toNat + grants.length = endings.length + held'.toNat

namespace Booked

variable {s s' s'' : QueueStats} {held held' held'' : Bool} {grants grants' : List (Nat × Nat)}
  {endings endings' : List Ending}

theorem refl (s : QueueStats) (held : Bool) : Booked s s held held [] [] := by
  constructor <;> simp

theorem trans (h : Booked s s' held held' grants endings)
    (h' : Booked s' s'' held' held'' grants' endings') :
    Booked s s'' held held'' (grants ++ grants') (endings ++ endings') := by
  have hheld := h.held_eq
  have hheld' := h'.held_eq
  refine ⟨?_, ?_, ?_, ?_, ?_, ?_, fun e he => ?_, ?_⟩
  · rw [h'.acquires_eq, h.acquires_eq, List.length_append, Nat.add_assoc]
  · rw [h'.releases_eq, h.releases_eq, List.length_append, Nat.add_assoc]
  · rw [h'.empty_eq, h.empty_eq, List.countP_append, Nat.add_assoc]
  · rw [h'.short_eq, h.short_eq, List.countP_append, Nat.add_assoc]
  · rw [h'.packets_eq, h.packets_eq, List.map_append, List.sum_append_nat, Nat.add_assoc]
  · rw [h'.bytes_eq, h.bytes_eq, List.map_append, List.sum_append_nat, Nat.add_assoc]
  · exact (List.mem_append.mp he).elim (h.exact e) (h'.exact e)
  · rw [List.length_append, List.length_append]
    omega

theorem grant (s : QueueStats) (requested granted : Nat) :
    Booked s (s.countAcquire requested granted) false true [(requested, granted)] [] := by
  constructor <;> simp [QueueStats.countAcquire, List.countP_cons]

theorem ending (s : QueueStats) (e : Ending) (he : e.Exact) :
    Booked s (s.countRelease e.count e.bytes) true false [] [e] := by
  constructor <;> simp [QueueStats.countRelease, he]

theorem eq_of_new (h : Booked {} s held held' grants endings) :
    s = { acquires := grants.length
          releases := endings.length
          emptyAcquires := grants.countP (·.2 = 0)
          shortAcquires := grants.countP fun g => 0 < g.2 ∧ g.2 < g.1
          packets := (endings.map Ending.count).sum
          bytes := (endings.map Ending.bytes).sum } := by
  obtain ⟨acquires, releases, empty, short, packets, bytes⟩ := s
  rw [QueueStats.mk.injEq]
  exact ⟨h.acquires_eq.trans (Nat.zero_add _), h.releases_eq.trans (Nat.zero_add _),
    h.empty_eq.trans (Nat.zero_add _), h.short_eq.trans (Nat.zero_add _),
    h.packets_eq.trans (Nat.zero_add _), h.bytes_eq.trans (Nat.zero_add _)⟩

theorem eq_of_idle (h : Booked s s' held held' [] []) : s' = s := by
  obtain ⟨acquires, releases, empty, short, packets, bytes⟩ := s'
  rw [QueueStats.mk.injEq]
  exact ⟨h.acquires_eq, h.releases_eq, h.empty_eq, h.short_eq, h.packets_eq, h.bytes_eq⟩

end Booked

namespace Handle

variable {h : Handle} {q : Queue} {r : PacketRing} {len count : Nat}

theorem view_eq (hr : card.ring? q.channel.id = some r) (hl : q.Lends len r) (hc : count ≤ len) :
    view count ⟨q, some len⟩ card = (List.range count).map fun k => (q.entry k r).packet := by
  simp only [view, hr]
  rw [← List.filterMap_eq_map]
  refine List.filterMap_congr fun k hk => ?_
  rw [hl.visible (Nat.lt_of_lt_of_le (List.mem_range.mp hk) hc)]
  rfl

theorem Sane.act_acquire_started (h : Sane ⟨q, none⟩ card) (hs : q.state = .started) (max : Nat) :
    ∃ len, (act (.acquire max) ⟨q, none⟩ card).1 = ⟨q.lent max len, some len⟩ := by
  have hready : q.Ready :=
    ⟨hs, h.coherent.bound_iff.mpr (by simp [hs]), h.coherent.window_eq⟩
  obtain ⟨r, hr, -⟩ := h.ring hready.bound
  refine ⟨(q.channel.openWindow max r).1, ?_⟩
  rw [act_acquire, Card.withRing_fst hr, acquireOn, Queue.acquire_ready hready]
  rfl

theorem accounted_le {direction : Direction} {op : HandleOp}
    (h : accounted direction len op = some count) :
    count ≤ len ∧ (direction = .rx → count = len) := by
  cases op with
  | release =>
    cases h
    exact ⟨Nat.le_refl len, fun _ => rfl⟩
  | commit n =>
    cases direction with
    | rx => cases h
    | tx =>
      simp only [accounted, Option.some.injEq] at h
      refine ⟨?_, fun hd => by cases hd⟩
      split at h <;> omega
  | abandon =>
    cases direction <;> cases h
    · exact ⟨Nat.le_refl len, fun _ => rfl⟩
    · exact ⟨Nat.zero_le len, fun hd => by cases hd⟩
  | start | stop | close | acquire | edit => cases h

theorem Sane.booked_ends {F : Queue → PacketRing → Except Fault Unit × Queue × PacketRing}
    {op : HandleOp} (h : Sane ⟨q, some len⟩ card) (hf : card.Fitting)
    (hF : ∀ r, (F q r).2 = (q.put count r).2)
    (hact : act op ⟨q, some len⟩ card = Handle.finish F q card)
    (hop : accounted q.channel.id.direction len op = some count)
    (hgrant : grant? op ⟨q, some len⟩ card = none) :
    Booked q.stats (act op ⟨q, some len⟩ card).1.queue.stats true
      (act op ⟨q, some len⟩ card).1.burst.isSome (grant? op ⟨q, some len⟩ card).toList
      (ending? op ⟨q, some len⟩ card).toList := by
  obtain ⟨r, hr, hl⟩ := h.lends
  obtain ⟨d, n, hfits⟩ := hf _ _ hr
  obtain ⟨hc, hrx⟩ := accounted_le hop
  have hend : ending? op ⟨q, some len⟩ card =
      some ⟨q.channel.id.direction, len, count, view count ⟨q, some len⟩ card⟩ := by
    simp [ending?, hop]
  have hbytes : q.byteCount count r =
      Ending.bytes ⟨q.channel.id.direction, len, count, view count ⟨q, some len⟩ card⟩ := by
    rw [Ending.bytes, view_eq hr hl hc, List.map_map]
    rfl
  have hstep : (act op ⟨q, some len⟩ card).1 = ⟨q.ended count (q.byteCount count r), none⟩ := by
    have hfst := Card.withRing_fst hr fun r => (F q r).2
    rw [hF, hl.put hfits hc] at hfst
    rw [hact]
    exact congrArg (Handle.mk · none) hfst
  rw [hstep, hgrant, hend, hbytes]
  refine Booked.ending q.stats ⟨_, len, count, _⟩ ⟨?_, hc, hrx⟩
  simp [view_eq hr hl hc]

theorem Sane.booked_acquire (h : Sane ⟨q, none⟩ card) (max : Nat) :
    Booked q.stats (act (.acquire max) ⟨q, none⟩ card).1.queue.stats false
      (act (.acquire max) ⟨q, none⟩ card).1.burst.isSome
      (grant? (.acquire max) ⟨q, none⟩ card).toList [] := by
  change Booked _ _ _ _ ((act (.acquire max) ⟨q, none⟩ card).1.burst.map (max, ·)).toList _
  by_cases hs : q.state = .started
  · obtain ⟨len, hact⟩ := h.act_acquire_started hs max
    rw [hact]
    exact Booked.grant q.stats max len
  · rw [(act_acquire_refused hs max card).1]
    exact Booked.refl q.stats false

theorem Sane.booked (hs : h.Sane card) (hf : card.Fitting) (op : HandleOp) :
    Booked h.queue.stats (h.act op card).1.queue.stats h.burst.isSome
      (h.act op card).1.burst.isSome (h.grant? op card).toList (h.ending? op card).toList := by
  obtain ⟨q, _ | len⟩ := h
  · cases op with
    | start =>
      rw [act]
      split
      · next heq =>
        obtain ⟨-, rfl, -⟩ := Queue.start_eq heq
        exact Booked.refl q.stats false
      · exact Booked.refl q.stats false
    | stop =>
      rw [act, q.stats_stop card]
      exact Booked.refl q.stats false
    | close =>
      rw [act, q.stats_close card]
      exact Booked.refl q.stats false
    | acquire max => exact hs.booked_acquire max
    | edit | release | commit | abandon => exact Booked.refl q.stats false
  · cases op with
    | edit offset change =>
      rw [act]
      split <;> exact Booked.refl q.stats true
    | release => exact hs.booked_ends hf (fun _ => rfl) rfl rfl rfl
    | commit count =>
      cases hd : q.channel.id.direction with
      | rx =>
        have hact : act (.commit count) ⟨q, some len⟩ card = (⟨q, some len⟩, card) := by
          rw [act, if_neg (by simp [hd])]
        have hend : ending? (.commit count) ⟨q, some len⟩ card = none := by
          simp [ending?, accounted, hd]
        rw [hact, hend]
        exact Booked.refl q.stats true
      | tx =>
        have hact : act (.commit count) ⟨q, some len⟩ card =
            Handle.finish (Queue.commit len count) q card := by
          rw [act, if_pos hd]
        by_cases hc : count ≤ len
        · refine hs.booked_ends hf (fun r => by rw [Queue.commit, if_pos hc]) hact ?_ rfl
          simp [accounted, hd, hc]
        · refine hs.booked_ends hf (fun r => by rw [Queue.commit, if_neg hc]) hact ?_ rfl
          simp [accounted, hd, hc]
    | abandon =>
      cases hd : q.channel.id.direction with
      | rx =>
        refine hs.booked_ends (F := Queue.abandon len) hf
          (fun r => by rw [Queue.abandon, hd]) rfl ?_ rfl
        simp [accounted, hd]
      | tx =>
        refine hs.booked_ends (F := Queue.abandon len) hf
          (fun r => by rw [Queue.abandon, hd]) rfl ?_ rfl
        simp [accounted, hd]
    | start | stop | close | acquire => exact Booked.refl q.stats true

theorem Sane.grants_iff (h : Sane ⟨q, none⟩ card) (max : Nat) :
    (grant? (.acquire max) ⟨q, none⟩ card).isSome ↔ q.state = .started := by
  change ((act (.acquire max) ⟨q, none⟩ card).1.burst.map (max, ·)).isSome ↔ _
  by_cases hs : q.state = .started
  · obtain ⟨len, hact⟩ := h.act_acquire_started hs max
    simp [hact, hs]
  · simp [(act_acquire_refused hs max card).1, hs]

theorem Sane.stats_kept (hs : h.Sane card) (hf : card.Fitting) {op : HandleOp}
    (hop : op = .start ∨ op = .stop ∨ op = .close ∨
      ∃ max, op = .acquire max ∧ h.queue.state ≠ .started) :
    (h.act op card).1.queue.stats = h.queue.stats := by
  have hb := hs.booked hf op
  have hnone : h.grant? op card = none ∧ h.ending? op card = none := by
    obtain ⟨q, _ | len⟩ := h
    · rcases hop with rfl | rfl | rfl | ⟨max, rfl, hstate⟩
      · exact ⟨rfl, rfl⟩
      · exact ⟨rfl, rfl⟩
      · exact ⟨rfl, rfl⟩
      · refine ⟨Option.not_isSome_iff_eq_none.mp fun hn => hstate ?_, rfl⟩
        exact (hs.grants_iff max).mp hn
    · rcases hop with rfl | rfl | rfl | ⟨max, rfl, -⟩ <;> exact ⟨rfl, rfl⟩
  rw [hnone.1, hnone.2] at hb
  exact hb.eq_of_idle

end Handle

namespace Rig

/-- What becomes of the queue under this name: a look outside the burst gives the burst up. -/
def turn? (name : Nat) : RigUse → Rig → Option (HandleOp × Handle)
  | .op (.onQueue n op), rig => if n = name then (rig.handles name).map (op, ·) else none
  | .look n look, rig =>
    if n = name then (rig.handles name).bind fun h => (h.afterLook look).map (·, h) else none
  | .op _, _ => none

def grants (name : Nat) : List RigUse → Rig → List (Nat × Nat)
  | [], _ => []
  | u :: us, rig =>
    ((turn? name u rig).bind fun (op, h) => h.grant? op rig.card).toList ++
      grants name us (use u rig)

def endings (name : Nat) : List RigUse → Rig → List Ending
  | [], _ => []
  | u :: us, rig =>
    ((turn? name u rig).bind fun (op, h) => h.ending? op rig.card).toList ++
      endings name us (use u rig)

def stats (name : Nat) (rig : Rig) : QueueStats :=
  (rig.handles name).elim {} (·.queue.stats)

variable {name : Nat} {u : RigUse} {op : HandleOp} {h : Handle}

theorem use_of_turn (ht : turn? name u rig = some (op, h)) :
    rig.handles name = some h ∧ use u rig = step (.onQueue name op) rig := by
  cases u with
  | op op' =>
    cases op' with
    | onQueue n op' =>
      rw [turn?] at ht
      split at ht
      · next hn =>
        subst hn
        obtain ⟨h', hn, heq⟩ := Option.map_eq_some_iff.mp ht
        cases heq
        exact ⟨hn, rfl⟩
      · cases ht
    | openDevice | closeDevice | openQueue | push | pop | drain => cases ht
  | look n look =>
    rw [turn?] at ht
    split at ht
    · next hn =>
      subst hn
      obtain ⟨h', hn, hmap⟩ := Option.bind_eq_some_iff.mp ht
      obtain ⟨op', hlook, heq⟩ := Option.map_eq_some_iff.mp hmap
      cases heq
      refine ⟨hn, ?_⟩
      rw [use, hn, Option.bind_some, hlook]
    · cases ht

theorem books_of_idle (ht : turn? name u rig = none) :
    (use u rig).stats name = rig.stats name ∧ (use u rig).lends name = rig.lends name := by
  by_cases hu : u.name? = some name
  · have huse : use u rig = rig := by
      cases hn : rig.handles name with
      | none => exact (use_of_none hn hu).1
      | some h =>
        cases u with
        | op op' =>
          cases op' with
          | onQueue n op' =>
            cases hu
            rw [turn?, if_pos rfl, hn] at ht
            cases ht
          | openDevice | closeDevice | openQueue | push | pop | drain => cases hu
        | look n look =>
          cases hu
          rw [turn?, if_pos rfl, hn] at ht
          rw [use, hn, Option.bind_some, Option.map_eq_none_iff.mp ht]
    rw [huse]
    exact ⟨rfl, rfl⟩
  · refine ⟨?_, lends_use_of_ne hu⟩
    rcases handles_use_of_ne hu with hsame | ⟨hnone, q, hnew⟩
    · rw [stats, stats, hsame]
    · rw [stats, stats, hnone, hnew]
      rfl

theorem booked_use (hk : rig.Kept) (hf : rig.card.Fitting) (name : Nat) (u : RigUse) :
    Booked (rig.stats name) ((use u rig).stats name) (rig.lends name) ((use u rig).lends name)
      ((turn? name u rig).bind fun (op, h) => h.grant? op rig.card).toList
      ((turn? name u rig).bind fun (op, h) => h.ending? op rig.card).toList := by
  cases ht : turn? name u rig with
  | none =>
    obtain ⟨hstats, hlends⟩ := books_of_idle ht
    rw [hstats, hlends]
    exact Booked.refl _ _
  | some turn =>
    obtain ⟨op, h⟩ := turn
    obtain ⟨hn, huse⟩ := use_of_turn ht
    have hnext : (use u rig).handles name = some (h.act op rig.card).1 := by
      rw [huse, step, hn]
      exact Function.update_self ..
    rw [stats, stats, lends, lends, hn, hnext]
    exact (hk.sane hn).booked hf op

theorem booked_useAll (hk : rig.Kept) (hf : rig.card.Fitting) (name : Nat) (us : List RigUse) :
    Booked (rig.stats name) ((useAll us rig).stats name) (rig.lends name)
      ((useAll us rig).lends name) (grants name us rig) (endings name us rig) := by
  induction us generalizing rig with
  | nil => exact Booked.refl _ _
  | cons u us ih => exact (booked_use hk hf name u).trans (ih (hk.use u) (hf.use u))

/-- The statistics of a queue are what its bursts amount to, however these end. What is refused does
not count, nor does any change of the lifecycle. -/
theorem accounts_exact {spec : CardSpec} {card : Card} (hcard : Card.create spec = .ok card)
    (us : List RigUse) {name : Nat} {h : Handle}
    (hn : (useAll us (ofCard card)).handles name = some h) :
    h.queue.stats =
        { acquires := (grants name us (ofCard card)).length
          releases := (endings name us (ofCard card)).length
          emptyAcquires := (grants name us (ofCard card)).countP (·.2 = 0)
          shortAcquires := (grants name us (ofCard card)).countP fun g => 0 < g.2 ∧ g.2 < g.1
          packets := ((endings name us (ofCard card)).map Ending.count).sum
          bytes := ((endings name us (ofCard card)).map Ending.bytes).sum } ∧
      (∀ e ∈ endings name us (ofCard card), e.Exact) ∧
      h.queue.stats.acquires - h.queue.stats.releases = h.burst.isSome.toNat ∧
      h.queue.stats.releases ≤ h.queue.stats.acquires ∧
      (h.burst = none → ∀ max,
        (h.grant? (.acquire max) (useAll us (ofCard card)).card).isSome ↔
          h.queue.state = .started) ∧
      ∀ op, op = .start ∨ op = .stop ∨ op = .close ∨
          (∃ max, op = .acquire max ∧ h.queue.state ≠ .started) →
        (step (.onQueue name op) (useAll us (ofCard card))).stats name = h.queue.stats := by
  have hk := (Kept.ofCard hcard).useAll us
  have hf : (useAll us (ofCard card)).card.Fitting :=
    (Card.Fitting.ofCard hcard).useAll us
  have hs := hk.sane hn
  have hbooked : Booked {} h.queue.stats false h.burst.isSome (grants name us (ofCard card))
      (endings name us (ofCard card)) := by
    have hb := booked_useAll (Kept.ofCard hcard) (.ofCard hcard) name us
    rw [stats, stats, lends, lends, hn] at hb
    exact hb
  have hbooks := hbooked.eq_of_new
  have hheld : (grants name us (ofCard card)).length =
      (endings name us (ofCard card)).length + h.burst.isSome.toNat := by
    simpa using hbooked.held_eq
  refine ⟨hbooks, hbooked.exact, ?_, ?_, fun hb max => ?_, fun op hop => ?_⟩
  · rw [hbooks, hheld, Nat.add_sub_cancel_left]
  · rw [hbooks, hheld]
    exact Nat.le_add_right _ _
  · obtain ⟨q, burst⟩ := h
    cases hb
    exact hs.grants_iff max
  · have hnext : (step (.onQueue name op) (useAll us (ofCard card))).handles name =
        some (h.act op (useAll us (ofCard card)).card).1 := by
      rw [step, hn]
      exact Function.update_self ..
    rw [stats, hnext]
    exact hs.stats_kept hf hop

/-- A receive queue whose first burst comes out short and ends with a look outside it, and whose
second comes out empty and is held. -/
def interrupted : List RigUse :=
  [.op (.push 0 [7] [] 0), .op (.push 0 [8, 9] [] 0), .op (.openQueue 0 ⟨.rx, 0⟩),
    .op (.onQueue 0 (.acquire 1)), .op (.onQueue 0 .start), .op (.onQueue 0 (.acquire 3)),
    .look 0 (.get 5), .op (.onQueue 0 (.acquire 1))]

theorem interrupted_accounts_exact :
    ∃ card h, Card.create { rxQueues := 1, txQueues := 0, ringCapacity := 3, slotSize := 2 } =
        .ok card ∧
      (useAll interrupted (ofCard card)).handles 0 = some h ∧
      grants 0 interrupted (ofCard card) = [(3, 2), (1, 0)] ∧
      (endings 0 interrupted (ofCard card)).map (fun e => (e.count, e.bytes)) = [(2, 3)] ∧
      h.queue.stats =
        { acquires := 2, releases := 1, emptyAcquires := 1, shortAcquires := 1, packets := 2,
          bytes := 3 } ∧
      h.burst = some 0 ∧ h.queue.stats.acquires - h.queue.stats.releases = 1 := by
  have hcard : Card.create { rxQueues := 1, txQueues := 0, ringCapacity := 3, slotSize := 2 } =
      .ok _ := rfl
  have hexact := fun h (hn : (useAll interrupted (ofCard _)).handles 0 = some h) =>
    accounts_exact hcard interrupted hn
  refine ⟨_, _, hcard, rfl, ?_, ?_, (hexact _ rfl).1.trans ?_, rfl, (hexact _ rfl).2.2.1⟩ <;>
    decide +kernel

end Rig

end DmaBurst
