import DmaBurst.Proofs.Delivery.Handle

namespace DmaBurst

/-- What a queue asks of the channel below it. -/
inductive ChannelCall where
  | start
  | stop
  | close
  | get (max : Nat)
  | packet (offset : Nat)
  | slot (offset : Nat)
  | edit (offset : Nat) (change : SlotEdit)
  | put (count : Nat)

namespace ChannelCall

def onRing (f : PacketRing → Except Fault Unit × Channel × PacketRing) (c : Channel) (card : Card) :
    Except Fault Unit × Channel × Card :=
  let out := card.withRing c.id fun r => (((f r).1, (f r).2.1), (f r).2.2)
  (out.1.1, out.1.2, out.2)

/-- A channel that refuses to start answers; it does not fault. -/
def run : ChannelCall → Channel → Card → Except Fault Unit × Channel × Card
  | .start, c, card =>
    match c.start card with
    | .ok (c, card) => (.ok (), c, card)
    | .error _ => (.ok (), c, card)
  | .stop, c, card => (.ok (), c.stop card)
  | .close, c, card => (.ok (), c.close card)
  | .get max, c, card => onRing (fun r => ((c.get max r).1.map fun _ => (), (c.get max r).2)) c card
  | .packet offset, c, card => onRing (fun r => ((c.packet offset r).map fun _ => (), c, r)) c card
  | .slot offset, c, card => onRing (fun r => ((c.slot offset r).map fun _ => (), c, r)) c card
  | .edit offset change, c, card => onRing (fun r =>
      ((c.editSlot offset change.apply r).map fun _ => (), c,
        (c.editSlot offset change.apply r).toOption.getD r)) c card
  | .put count, c, card => onRing (c.put count) c card

def runAll : List ChannelCall → Channel → Card → Except Fault Unit × Channel × Card
  | [], c, card => (.ok (), c, card)
  | call :: calls, c, card =>
    match call.run c card with
    | (.ok (), c, card) => runAll calls c card
    | (.error f, c, card) => (.error f, c, card)

/-- The contract of a channel, by whether it has lent a burst: one burst at a time, looked at and
filled while it is lent and then put back once, and no change of its lifecycle meanwhile. -/
def next : Bool → ChannelCall → Option Bool
  | false, .start => some false
  | false, .stop => some false
  | false, .close => some false
  | false, .get _ => some true
  | true, .packet _ => some true
  | true, .slot _ => some true
  | true, .edit _ _ => some true
  | true, .put _ => some false
  | _, _ => none

end ChannelCall

structure Guard where
  direction : Direction
  len : Nat
  released : Bool := false

namespace Guard

def look (g : Guard) (offset : Nat) : ChannelCall :=
  match g.direction with
  | .rx => .packet offset
  | .tx => .slot offset

def put (count : Nat) (g : Guard) : List ChannelCall × Guard :=
  if g.released then ([], g)
  else ((List.range count).map g.look ++ [.put count], { g with released := true })

/-- A guard that goes out of scope ends its burst: a receive burst goes back read, transmit slots go
back unused. -/
def drop (g : Guard) : List ChannelCall :=
  match g.direction with
  | .rx => (g.put g.len).1
  | .tx => (g.put 0).1

/-- Whoever ends the burst gives the guard away, so it goes out of scope after that. -/
def finish (count : Nat) (g : Guard) : List ChannelCall :=
  (g.put count).1 ++ (g.put count).2.drop

/-- A count beyond the burst fails before anything is asked of the channel. -/
def commit (count : Nat) (g : Guard) : List ChannelCall :=
  if count ≤ g.len then g.finish count else g.drop

def ofBurst (q : Queue) (len : Nat) : Guard :=
  { direction := q.channel.id.direction, len }

theorem finish_eq (q : Queue) (len count : Nat) :
    (ofBurst q len).finish count = (List.range count).map (ofBurst q len).look ++ [.put count] := by
  cases hd : q.channel.id.direction <;> simp [finish, put, drop, ofBurst, hd]

theorem drop_eq (q : Queue) (len : Nat) :
    (ofBurst q len).drop = match q.channel.id.direction with
      | .rx => (List.range len).map (ofBurst q len).look ++ [.put len]
      | .tx => [.put 0] := by
  cases hd : q.channel.id.direction <;> simp [put, drop, ofBurst, hd]

end Guard

namespace Handle

def calls : HandleOp → Handle → List ChannelCall
  | .start, ⟨q, none⟩ => if q.state = .opened ∨ q.state = .stopped then [.start] else []
  | .stop, ⟨q, none⟩ => if q.state = .started then [.stop] else []
  | .close, ⟨q, none⟩ =>
    if q.state = .closed then []
    else if q.state = .started then [.stop, .close]
    else [.close]
  | .acquire max, ⟨q, none⟩ => if q.state = .started then [.get max] else []
  | .edit offset change, ⟨q, some len⟩ =>
    if q.channel.id.direction = .tx ∧ offset < len then [.edit offset change] else []
  | .release, ⟨q, some len⟩ => (Guard.ofBurst q len).finish len
  | .commit count, ⟨q, some len⟩ =>
    if q.channel.id.direction = .tx then (Guard.ofBurst q len).commit count else []
  | .abandon, ⟨q, some len⟩ => (Guard.ofBurst q len).drop
  | _, _ => []

/-- A handle whose queue, channel and ring agree on the lifecycle and on the burst that is lent. -/
structure Sane (h : Handle) (card : Card) : Prop where
  coherent : h.Coherent
  started_iff : h.queue.state = .started ↔ h.queue.channel.started = true
  ring : h.queue.channel.bound = true → ∃ r, card.ring? h.queue.channel.id = some r ∧
    r.windowOf h.queue.channel.id.direction = h.burst.getD 0

end Handle

namespace ChannelCall

variable {c : Channel} {card : Card} {r : PacketRing}

theorem onRing_eq (h : card.ring? c.id = some r)
    (f : PacketRing → Except Fault Unit × Channel × PacketRing) :
    onRing f c card = ((f r).1, (f r).2.1, card.setRing c.id (f r).2.2) := by
  simp only [onRing, Card.withRing_fst h, Card.withRing_snd h]

theorem run_look {g : Guard} (hd : g.direction = c.id.direction) (h : card.ring? c.id = some r)
    (hb : c.bound = true) {offset : Nat} (ho : offset < r.windowOf c.id.direction) :
    (g.look offset).run c card = (.ok (), c, card) := by
  rw [Guard.look, hd]
  cases hdir : c.id.direction <;> rw [hdir, PacketRing.windowOf] at ho
  · rw [run, onRing_eq h, Channel.packet, if_pos hb, PacketRing.exposedSlot, if_pos ho,
      Card.setRing_self h]
    rfl
  · rw [run, onRing_eq h, Channel.slot, if_pos hb, PacketRing.reservedSlot, if_pos ho,
      Card.setRing_self h]
    rfl

theorem runAll_append {calls : List ChannelCall} (more : List ChannelCall)
    (h : ∀ call ∈ calls, call.run c card = (.ok (), c, card)) :
    runAll (calls ++ more) c card = runAll more c card := by
  induction calls with
  | nil => rfl
  | cons call calls ih =>
    rw [List.cons_append, runAll, h call List.mem_cons_self]
    exact ih fun call hm => h call (List.mem_cons_of_mem _ hm)

theorem runAll_singleton (call : ChannelCall) (c : Channel) (card : Card) :
    runAll [call] c card = call.run c card := by
  rw [runAll]
  rcases call.run c card with ⟨_ | _, c', card'⟩ <;> rfl

theorem onRing_bound {f : PacketRing → Except Fault Unit × Channel × PacketRing}
    (hf : ∀ r, (f r).2.1.id = c.id ∧ (f r).2.1.bound = c.bound)
    (h : card.isBound c.id = c.bound) :
    (onRing f c card).2.1.id = c.id ∧
      (onRing f c card).2.2.isBound c.id = (onRing f c card).2.1.bound := by
  obtain ⟨r, hr⟩ := card.exists_withRing_fst c.id fun r => (((f r).1, (f r).2.1), (f r).2.2)
  simp only [onRing, hr, Card.isBound_withRing, hf, h, and_self]

theorem run_bound (call : ChannelCall) (h : card.isBound c.id = c.bound) :
    (call.run c card).2.1.id = c.id ∧
      (call.run c card).2.2.isBound c.id = (call.run c card).2.1.bound := by
  cases call with
  | start =>
    rw [run, Channel.start]
    split
    · next hs =>
      split at hs
      · cases hs
      · cases hs
        exact ⟨rfl, (card.isBound_record _ _).trans h⟩
    · exact ⟨rfl, h⟩
  | stop =>
    rw [run, Channel.stop_eq]
    refine ⟨rfl, ?_⟩
    dsimp only
    split
    · exact (card.isBound_record _ _).trans h
    · exact h
  | close =>
    rw [run, Channel.close_eq]
    refine ⟨rfl, ?_⟩
    dsimp only
    split
    · rw [Card.isBound_record, Card.isBound_setBound, if_pos rfl]
      rfl
    · next hb =>
      rw [Channel.stop_eq]
      dsimp only
      split
      · rw [Card.isBound_record, h]
        exact Bool.eq_false_iff.mpr hb
      · rw [h]
        exact Bool.eq_false_iff.mpr hb
  | get max =>
    refine onRing_bound (fun r => ?_) h
    change (c.get max r).2.1.id = c.id ∧ (c.get max r).2.1.bound = c.bound
    rw [c.get_frame]
    exact ⟨rfl, rfl⟩
  | put count =>
    refine onRing_bound (fun r => ?_) h
    rw [c.put_frame]
    exact ⟨rfl, rfl⟩
  | packet | slot | edit => exact onRing_bound (fun _ => ⟨rfl, rfl⟩) h

theorem runAll_bound (calls : List ChannelCall) (h : card.isBound c.id = c.bound) :
    (runAll calls c card).2.1.id = c.id ∧
      (runAll calls c card).2.2.isBound c.id = (runAll calls c card).2.1.bound := by
  induction calls generalizing c card with
  | nil => exact ⟨rfl, h⟩
  | cons call calls ih =>
    obtain ⟨hid, hb⟩ := run_bound call h
    rw [runAll]
    rcases hrun : call.run c card with ⟨_ | _, c', card'⟩
    · rw [hrun] at hid hb
      exact ⟨hid, hb⟩
    · rw [hrun] at hid hb
      obtain ⟨hid', hb'⟩ := ih (show card'.isBound c'.id = c'.bound from hid ▸ hb)
      exact ⟨hid'.trans hid, hid ▸ hb'⟩

end ChannelCall

theorem Channel.get_ready {c : Channel} {max : Nat} {r : PacketRing} (hw : c.window = none)
    (hb : c.bound = true) :
    c.get max r = (.ok (c.openWindow max r).1,
      { c with window := some (c.openWindow max r).1 }, (c.openWindow max r).2) := by
  cases hd : c.id.direction <;> simp [Channel.get, hw, hb, hd, Channel.openWindow]

namespace Handle

open ChannelCall

variable {q : Queue} {card : Card} {r : PacketRing} {len count : Nat}

theorem Sane.lends (h : Sane ⟨q, some len⟩ card) :
    ∃ r, card.ring? q.channel.id = some r ∧ q.Lends len r := by
  have hs : q.state = .started := h.coherent.started rfl
  have hb : q.channel.bound = true := h.coherent.bound_iff.mpr (by simp [hs])
  obtain ⟨r, hr, hw⟩ := h.ring hb
  exact ⟨r, hr, hb, h.coherent.window_eq, hw⟩

/-- What an operation does to a handle is what its calls do to the channel and the card, none of
which faults; they keep the contract, and so do the handle and the card after it. -/
structure Honest (op : HandleOp) (h : Handle) (card : Card) : Prop where
  replay : runAll (h.calls op) h.queue.channel card =
    (.ok (), (h.act op card).1.queue.channel, (h.act op card).2)
  contract : (h.calls op).foldlM next h.burst.isSome = some (h.act op card).1.burst.isSome
  sane : (h.act op card).1.Sane (h.act op card).2
  ring : h.queue.channel.bound = true → ∃ r, (h.act op card).2.ring? h.queue.channel.id = some r ∧
    r.windowOf h.queue.channel.id.direction = (h.act op card).1.burst.getD 0

theorem honest_of_idle {op : HandleOp} {h : Handle} (hs : h.Sane card) (hc : h.calls op = [])
    (ha : h.act op card = (h, card)) : Honest op h card := by
  refine ⟨?_, ?_, ?_, ?_⟩
  · rw [hc, ha]
    rfl
  · rw [hc, ha]
    rfl
  · rw [ha]
    exact hs
  · rw [ha]
    exact hs.ring

theorem contract_ends (g : Guard) (count : Nat) :
    ((List.range count).map g.look ++ [ChannelCall.put count]).foldlM next true = some false := by
  have hlooks : ((List.range count).map g.look).foldlM next true = some true := by
    induction count with
    | zero => rfl
    | succ count ih =>
      rw [List.range_succ, List.map_append, List.foldlM_append, ih]
      cases hd : g.direction <;> simp [Guard.look, hd, next]
  rw [List.foldlM_append, hlooks]
  rfl

theorem Sane.ends {F : Queue → PacketRing → Except Fault Unit × Queue × PacketRing}
    {op : HandleOp} (h : Sane ⟨q, some len⟩ card) (hc : count ≤ len)
    (hF : ∀ r, (F q r).2 = (q.put count r).2)
    (hact : act op ⟨q, some len⟩ card = Handle.finish F q card)
    (hcalls : calls op ⟨q, some len⟩ =
      (List.range count).map (Guard.ofBurst q len).look ++ [.put count]) :
    Honest op ⟨q, some len⟩ card := by
  obtain ⟨r, hr, hl⟩ := h.lends
  obtain ⟨bytes, hput⟩ := hl.put_channel hc
  have hstep : act op ⟨q, some len⟩ card = (⟨q.ended count bytes, none⟩,
      card.setRing q.channel.id (q.channel.closeWindow count r)) := by
    have hfst := Card.withRing_fst hr fun r => (F q r).2
    have hsnd := Card.withRing_snd hr fun r => (F q r).2
    rw [hF, hput] at hfst hsnd
    rw [hact]
    exact Prod.ext (congrArg (Handle.mk · none) hfst) hsnd
  have hring : (card.setRing q.channel.id (q.channel.closeWindow count r)).ring? q.channel.id =
      some (q.channel.closeWindow count r) := by
    rw [Card.ring?_setRing hr, if_pos rfl]
  refine ⟨?_, ?_, ?_, fun _ => ?_⟩
  · rw [hcalls, hstep, runAll_append _ fun call hm => ?_, runAll_singleton, run, onRing_eq hr,
      hl.channel_put hc]
    · rfl
    · obtain ⟨offset, ho, rfl⟩ := List.mem_map.mp hm
      exact run_look rfl hr hl.bound (hl.windowOf_eq.symm ▸
        Nat.lt_of_lt_of_le (List.mem_range.mp ho) hc)
  · rw [hcalls, hstep]
    exact contract_ends _ count
  · rw [hstep]
    exact ⟨⟨rfl, h.coherent.bound_iff, fun hn => by cases hn⟩, h.started_iff,
      fun _ => ⟨_, hring, PacketRing.windowOf_closeWindow _ _ _⟩⟩
  · rw [hstep]
    exact ⟨_, hring, PacketRing.windowOf_closeWindow _ _ _⟩

theorem Sane.acquire (h : Sane ⟨q, none⟩ card) (max : Nat) :
    Honest (.acquire max) ⟨q, none⟩ card := by
  by_cases hs : q.state = .started
  · have hready : q.Ready :=
      ⟨hs, h.coherent.bound_iff.mpr (by simp [hs]), h.coherent.window_eq⟩
    obtain ⟨r, hr, -⟩ := h.ring hready.bound
    have hcalls : calls (.acquire max) ⟨q, none⟩ = [.get max] := if_pos hs
    have hacquire : acquireOn max q r = ((.ok (q.channel.openWindow max r).1,
        q.lent max (q.channel.openWindow max r).1), (q.channel.openWindow max r).2) := by
      rw [acquireOn, Queue.acquire_ready hready]
    have hstep : act (.acquire max) ⟨q, none⟩ card =
        (⟨q.lent max (q.channel.openWindow max r).1, some (q.channel.openWindow max r).1⟩,
          card.setRing q.channel.id (q.channel.openWindow max r).2) := by
      rw [act_acquire, Card.withRing_fst hr, Card.withRing_snd hr, hacquire]
      rfl
    have hring : (card.setRing q.channel.id (q.channel.openWindow max r).2).ring? q.channel.id =
        some (q.channel.openWindow max r).2 := by
      rw [Card.ring?_setRing hr, if_pos rfl]
    have hwindow := PacketRing.windowOf_openWindow q.channel max r
    refine ⟨?_, ?_, ?_, fun _ => ?_⟩
    · rw [hcalls, hstep, runAll_singleton, run, onRing_eq hr,
        Channel.get_ready hready.window_eq hready.bound]
      rfl
    · rw [hcalls, hstep]
      rfl
    · rw [hstep]
      exact ⟨⟨rfl, h.coherent.bound_iff, fun _ => hs⟩, h.started_iff, fun _ => ⟨_, hring, hwindow⟩⟩
    · rw [hstep]
      exact ⟨_, hring, hwindow⟩
  · refine honest_of_idle h (if_neg hs) (Prod.ext (act_acquire_refused hs max card).1 ?_)
    rw [act_acquire]
    exact Card.withRing_snd_of_id fun r => by rw [acquireOn, Queue.acquire_refused hs]

theorem Sane.edit (h : Sane ⟨q, some len⟩ card) (offset : Nat) (change : SlotEdit) :
    Honest (.edit offset change) ⟨q, some len⟩ card := by
  obtain ⟨r, hr, hl⟩ := h.lends
  by_cases hd : q.channel.id.direction = .tx
  · have hact : act (.edit offset change) ⟨q, some len⟩ card = (⟨q, some len⟩,
        card.setRing q.channel.id ((q.editSlot len offset change.apply r).toOption.getD r)) := by
      rw [act, if_pos hd, Card.withRing_snd hr]
    by_cases ho : offset < len
    · have hcalls : calls (.edit offset change) ⟨q, some len⟩ = [.edit offset change] :=
        if_pos ⟨hd, ho⟩
      have hw := hl.windowOf_eq
      rw [hd, PacketRing.windowOf] at hw
      have hedit : q.channel.editSlot offset change.apply r =
          .ok (r.modifyAt r.head offset change.apply) := by
        rw [Channel.editSlot, if_pos hl.bound, PacketRing.editReserved, if_pos (by omega)]
      rw [Queue.editSlot, if_pos ho, hedit] at hact
      have hring : (card.setRing q.channel.id (r.modifyAt r.head offset change.apply)).ring?
          q.channel.id = some (r.modifyAt r.head offset change.apply) := by
        rw [Card.ring?_setRing hr, if_pos rfl]
      have hwindow : (r.modifyAt r.head offset change.apply).windowOf q.channel.id.direction =
          len := by
        rw [hd, PacketRing.windowOf]
        exact hw
      refine ⟨?_, ?_, ?_, fun _ => ?_⟩
      · rw [hcalls, hact, runAll_singleton, run, onRing_eq hr, hedit]
        rfl
      · rw [hcalls, hact]
        rfl
      · rw [hact]
        exact ⟨h.coherent, h.started_iff, fun _ => ⟨_, hring, hwindow⟩⟩
      · rw [hact]
        exact ⟨_, hring, hwindow⟩
    · rw [Queue.editSlot, if_neg ho] at hact
      refine honest_of_idle h (if_neg fun hn => ho hn.2) (hact.trans ?_)
      exact congrArg (Prod.mk _) (Card.setRing_self hr)
  · exact honest_of_idle h (if_neg fun hn => hd hn.1) (by rw [act, if_neg hd])

theorem Sane.of_sameRings {q' : Queue} {card' : Card} (h : Sane ⟨q, none⟩ card)
    (hs : card.SameRings card') (hid : q'.channel.id = q.channel.id)
    (hc : Coherent ⟨q', none⟩)
    (hstarted : q'.state = .started ↔ q'.channel.started = true)
    (hb : q'.channel.bound = true → q.channel.bound = true) : Sane ⟨q', none⟩ card' := by
  refine ⟨hc, hstarted, fun hn => ?_⟩
  obtain ⟨r, hr, hw⟩ := h.ring (hb hn)
  exact ⟨r, by rw [hid, hs.2]; exact hr, by rw [hid]; exact hw⟩

theorem Sane.start (h : Sane ⟨q, none⟩ card) : Honest .start ⟨q, none⟩ card := by
  by_cases hs : q.state = .opened ∨ q.state = .stopped
  · have hcalls : calls .start ⟨q, none⟩ = [.start] := if_pos hs
    cases hc : q.channel.start card with
    | error e =>
      have hact : act .start ⟨q, none⟩ card = (⟨q, none⟩, card) := by
        rw [act, Queue.start, if_pos hs, hc]
      refine ⟨?_, ?_, hact ▸ h, hact ▸ h.ring⟩
      · rw [hcalls, hact, runAll_singleton, run, hc]
      · rw [hcalls, hact]
        rfl
    | ok started =>
      obtain ⟨channel, card'⟩ := started
      have hstart : q.start card = .ok ({ q with state := .started, channel }, card') := by
        rw [Queue.start, if_pos hs, hc]
      have hact : act .start ⟨q, none⟩ card =
          (⟨{ q with state := .started, channel }, none⟩, card') := by
        rw [act, hstart]
      obtain ⟨-, hq, hcard⟩ := Queue.start_eq hstart
      have hchannel : channel = { q.channel with started := true } := congrArg Queue.channel hq
      have hsame : card.SameRings card' := hcard ▸ .record _ _
      refine ⟨?_, ?_, ?_, fun hb => ?_⟩
      · rw [hcalls, hact, runAll_singleton, run, hc]
      · rw [hcalls, hact]
        rfl
      · rw [hact]
        refine h.of_sameRings hsame (by rw [hchannel]) (h.coherent.start hstart) ?_ ?_
        · simp [hchannel]
        · simp [hchannel]
      · rw [hact]
        obtain ⟨r, hr, hw⟩ := h.ring hb
        exact ⟨r, (hsame.2 _).trans hr, hw⟩
  · refine honest_of_idle h (if_neg hs) ?_
    rw [act, Queue.start, if_neg hs]

theorem Sane.stop (h : Sane ⟨q, none⟩ card) : Honest .stop ⟨q, none⟩ card := by
  obtain ⟨hsame, -, hchannel⟩ := Queue.sameRings_stop q card
  by_cases hs : q.state = .started
  · have hcalls : calls .stop ⟨q, none⟩ = [.stop] := if_pos hs
    have hstop : q.stop card = _ := q.stop_eq
    rw [if_pos hs] at hstop
    refine ⟨?_, ?_, ?_, fun hb => ?_⟩
    · rw [hcalls, runAll_singleton, run, act, hstop]
    · rw [hcalls]
      rfl
    · refine h.of_sameRings hsame (by rw [hchannel]) (h.coherent.stop card) ?_ ?_
      · rw [hstop]
        simp [Channel.stop_eq]
      · rw [hchannel]
        exact id
    · obtain ⟨r, hr, hw⟩ := h.ring hb
      exact ⟨r, (hsame.2 _).trans hr, hw⟩
  · refine honest_of_idle h (if_neg hs) ?_
    rw [act, Queue.stop_eq, if_neg hs]

theorem Sane.close (h : Sane ⟨q, none⟩ card) : Honest .close ⟨q, none⟩ card := by
  obtain ⟨hsame, -, hstate, hid, -, hbound⟩ := Queue.sameRings_close q card
  by_cases hc : q.state = .closed
  · refine honest_of_idle h (if_pos hc) ?_
    rw [act, Queue.close_eq, if_pos hc]
  · have hclose : q.close card = _ := q.close_eq
    rw [if_neg hc] at hclose
    have hreplay : runAll (calls .close ⟨q, none⟩) q.channel card =
          (.ok (), (q.close card).1.channel, (q.close card).2) ∧
        (calls .close ⟨q, none⟩).foldlM next false = some false := by
      rw [calls, if_neg hc, hclose, Queue.stop_eq]
      by_cases hs : q.state = .started
      · rw [if_pos hs, if_pos hs]
        exact ⟨rfl, rfl⟩
      · rw [if_neg hs, if_neg hs]
        exact ⟨rfl, rfl⟩
    refine ⟨hreplay.1, hreplay.2, ?_, fun hb => ?_⟩
    · refine h.of_sameRings hsame hid (h.coherent.close card) ?_ fun hn => ?_
      · rw [hstate, hclose]
        simp [Channel.close_eq]
      · exact absurd ((hbound hc).symm.trans hn) Bool.false_ne_true
    · obtain ⟨r, hr, hw⟩ := h.ring hb
      exact ⟨r, (hsame.2 _).trans hr, hw⟩

theorem Sane.honest {h : Handle} (hs : h.Sane card) (op : HandleOp) : Honest op h card := by
  obtain ⟨q, _ | len⟩ := h
  · cases op with
    | start => exact hs.start
    | stop => exact hs.stop
    | close => exact hs.close
    | acquire max => exact hs.acquire max
    | edit | release | commit | abandon => exact honest_of_idle hs rfl rfl
  · cases op with
    | edit offset change => exact hs.edit offset change
    | release =>
      exact hs.ends (F := Queue.release len) (Nat.le_refl len) (fun _ => rfl) rfl
        (Guard.finish_eq q len len)
    | commit count =>
      by_cases hd : q.channel.id.direction = .tx
      · have hact : act (.commit count) ⟨q, some len⟩ card =
            Handle.finish (Queue.commit len count) q card := by
          rw [act, if_pos hd]
        by_cases hc : count ≤ len
        · refine hs.ends hc (fun r => by rw [Queue.commit, if_pos hc]) hact ?_
          rw [calls, if_pos hd, Guard.commit, Guard.ofBurst, if_pos hc]
          exact Guard.finish_eq q len count
        · refine hs.ends (Nat.zero_le len) (fun r => by rw [Queue.commit, if_neg hc]) hact ?_
          rw [calls, if_pos hd, Guard.commit, Guard.ofBurst, if_neg hc]
          exact (Guard.drop_eq q len).trans (by rw [hd]; rfl)
      · exact honest_of_idle hs (if_neg hd) (by rw [act, if_neg hd])
    | abandon =>
      have hcalls : calls .abandon ⟨q, some len⟩ = (Guard.ofBurst q len).drop := rfl
      rw [Guard.drop_eq] at hcalls
      cases hd : q.channel.id.direction with
      | rx =>
        rw [hd] at hcalls
        exact hs.ends (F := Queue.abandon len) (Nat.le_refl len)
          (fun r => by rw [Queue.abandon, hd]) rfl hcalls
      | tx =>
        rw [hd] at hcalls
        exact hs.ends (F := Queue.abandon len) (Nat.zero_le len)
          (fun r => by rw [Queue.abandon, hd]) rfl hcalls
    | start | stop | close | acquire => exact honest_of_idle hs rfl rfl

end Handle

end DmaBurst
