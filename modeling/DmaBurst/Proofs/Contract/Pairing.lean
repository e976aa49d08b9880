import DmaBurst.Proofs.Contract.Answers
import DmaBurst.Proofs.Run.Ports

namespace DmaBurst

/-- A call on a channel, and the answer to it. Channels go by the order in which they were
opened. -/
structure Exchange where
  channel : Nat
  call : ChannelCall
  answer : Except Fault Nat

namespace Exchange

def track {β : Type} (after : ChannelCall → Except Fault Nat → β → β) (i : Nat) (b : β)
    (past : List Exchange) : β :=
  (past.filter (·.channel = i)).foldl (fun b e => after e.call e.answer b) b

def isOpen (i : Nat) (past : List Exchange) : Bool :=
  track (fun call _ b => b && !call.isClose) i true past

/-- The burst that the channel still has: it loses a burst that it fails to put. -/
def kept (i : Nat) (past : List Exchange) : Option Nat :=
  track ChannelCall.keptAfter i none past

/-- The burst that was acquired on the channel and has been neither put nor lost by closing. -/
def outstanding (i : Nat) (past : List Exchange) : Option Nat :=
  track ChannelCall.outstandingAfter i none past

/-- The size of the window that the ring shows, whichever channel opened it. -/
def shown (past : List Exchange) : Nat :=
  past.foldl (fun n e => e.call.shownAfter e.answer n) 0

variable {β : Type} {after : ChannelCall → Except Fault Nat → β → β} {past : List Exchange}

theorem track_concat (i : Nat) (b : β) (past : List Exchange) (e : Exchange) :
    track after i b (past ++ [e]) =
      if e.channel = i then after e.call e.answer (track after i b past)
      else track after i b past := by
  rw [track, List.filter_append]
  split
  · next h => simp [track, h]
  · next h => simp [track, h]

theorem isOpen_concat (i : Nat) (past : List Exchange) (e : Exchange) :
    isOpen i (past ++ [e]) =
      if e.channel = i then isOpen i past && !e.call.isClose else isOpen i past :=
  track_concat ..

theorem kept_concat (i : Nat) (past : List Exchange) (e : Exchange) :
    kept i (past ++ [e]) =
      if e.channel = i then e.call.keptAfter e.answer (kept i past) else kept i past :=
  track_concat ..

theorem outstanding_concat (i : Nat) (past : List Exchange) (e : Exchange) :
    outstanding i (past ++ [e]) =
      if e.channel = i then e.call.outstandingAfter e.answer (outstanding i past)
      else outstanding i past :=
  track_concat ..

theorem track_of_unknown {i : Nat} (h : ∀ e ∈ past, e.channel < i) (b : β) :
    track after i b past = b := by
  have hnil : past.filter (·.channel = i) = [] := by
    rw [List.filter_eq_nil_iff]
    intro e he
    have := h e he
    simp
    omega
  rw [track, hnil]
  rfl

theorem shown_concat (past : List Exchange) (e : Exchange) :
    shown (past ++ [e]) = e.call.shownAfter e.answer (shown past) :=
  List.foldl_append

/-- No channel is closed with a burst outstanding, and nothing beyond a burst is put. -/
def Orderly (direction : Direction) (past : List Exchange) : Prop :=
  ∀ earlier e later, past = earlier ++ e :: later → ∀ n, outstanding e.channel earlier = some n →
    match e.call with
    | .close => False
    | .put count => direction = .tx → count ≤ n
    | _ => True

theorem Orderly.of_concat {direction : Direction} {e : Exchange}
    (h : Orderly direction (past ++ [e])) : Orderly direction past := by
  intro earlier e' later hpast
  refine h earlier e' (later ++ [e]) ?_
  rw [hpast, List.append_assoc]
  rfl

end Exchange

open Exchange ChannelCall

/-- A card, and the channels that were opened for one of its queues, the closed ones included. -/
structure Openings where
  card : Card
  channels : List Channel := []
  past : List Exchange := []

/-- What can happen: the queue is opened again, a channel is asked something, or the hardware
acts. -/
inductive ChannelUse where
  | reopen
  | ask (i : Nat) (call : ChannelCall)
  | hardware (op : PortOp)

namespace Openings

def use (q : QueueId) : ChannelUse → Openings → Openings
  | .reopen, s =>
    match s.card.bindChannel q with
    | .error _ => s
    | .ok (c, card) => { s with card, channels := s.channels ++ [c] }
  | .ask i call, s =>
    match s.channels[i]? with
    | none => s
    | some c => {
        card := (call.run c s.card).2.2
        channels := s.channels.set i (call.run c s.card).2.1
        past := s.past ++ [⟨i, call, call.answer c s.card⟩] }
  | .hardware op, s => { s with card := op.run s.card }

def useAll (q : QueueId) (uses : List ChannelUse) (s : Openings) : Openings :=
  uses.foldl (fun s u => s.use q u) s

/-- The channels, the card and the ring agree with the calls so far, and the driver's end of the
queue is with one channel at most. -/
structure Booked (q : QueueId) (s : Openings) : Prop where
  known : ∀ e ∈ s.past, e.channel < s.channels.length
  channel : ∀ {i : Nat} {c : Channel}, s.channels[i]? = some c →
    c.id = q ∧ c.bound = isOpen i s.past ∧ c.window = kept i s.past
  taken : ∀ {i : Nat} {c : Channel}, s.channels[i]? = some c → c.bound = true →
    s.card.isBound q = true
  alone : ∀ {i j : Nat} {c c' : Channel}, s.channels[i]? = some c → s.channels[j]? = some c' →
    c.bound = true → c'.bound = true → i = j
  ring : ∃ r, s.card.ring? q = some r ∧ r.windowOf q.direction = shown s.past
  agrees : ∀ {i n : Nat} {c : Channel}, s.channels[i]? = some c → c.bound = true →
    c.window = some n → shown s.past = n

variable {q : QueueId} {s : Openings}

namespace Booked

theorem start {spec : CardSpec} {card : Card} (hcard : Card.create spec = .ok card)
    (hq : q.index < spec.queueCount q.direction) : Booked q { card } := by
  obtain ⟨-, r, hr, hline⟩ := Card.create_line hcard hq
  refine ⟨by simp, by simp, by simp, by simp, ⟨r, ?_, ?_⟩, by simp⟩
  · rw [Card.ring?, hline]
    rfl
  · rw [PacketRing.create] at hr
    split at hr
    · cases hr
      cases q.direction <;> rfl
    · cases hr

theorem ring_of (h : Booked q s) {i : Nat} {c : Channel} (hc : s.channels[i]? = some c) :
    ∃ r, s.card.ring? c.id = some r ∧ c.Agrees r ∧ r.windowOf c.id.direction = shown s.past := by
  obtain ⟨hid, -⟩ := h.channel hc
  obtain ⟨r, hr, hw⟩ := h.ring
  rw [hid]
  refine ⟨r, hr, fun n hb hn => ?_, hw⟩
  rw [hid, hw]
  exact h.agrees hc hb hn

theorem reopen (h : Booked q s) : Booked q (s.use q .reopen) := by
  rw [use, Card.bindChannel]
  cases href : s.card.bindRefusal q with
  | some reason => exact h
  | none =>
    obtain ⟨r, hr, hw⟩ := h.ring
    have hfree : s.card.isBound q = false := Queue.not_isBound_of_bindRefusal href
    have hclosed : ∀ {i : Nat} {c : Channel}, s.channels[i]? = some c → c.bound = false := by
      intro i c hc
      rw [← Bool.not_eq_true]
      intro hb
      rw [h.taken hc hb] at hfree
      cases hfree
    dsimp only
    refine ⟨fun e he => ?_, fun hc => ?_, fun _ _ => ?_, fun hc hc' hb hb' => ?_, ⟨r, ?_, hw⟩,
      fun hc hb hn => ?_⟩
    · rw [List.length_append]
      exact Nat.lt_succ_of_lt (h.known e he)
    · obtain hc | ⟨rfl, rfl⟩ := Card.getElem?_concat_cases hc
      · exact h.channel hc
      · exact ⟨rfl, (track_of_unknown h.known _).symm, (track_of_unknown h.known _).symm⟩
    · have hline : (s.card.line? q).isSome = true := by
        rw [← Option.isSome_map (f := Line.ring)]
        exact Option.isSome_of_eq_some hr
      rw [Card.isBound_record, Card.isBound_setBound, if_pos rfl, hline]
      rfl
    · obtain hc | ⟨rfl, -⟩ := Card.getElem?_concat_cases hc
      · rw [hclosed hc] at hb
        cases hb
      · obtain hc' | ⟨rfl, -⟩ := Card.getElem?_concat_cases hc'
        · rw [hclosed hc'] at hb'
          cases hb'
        · rfl
    · rw [Card.ring?_record, Card.ring?_setBound, hr]
    · obtain hc | ⟨-, rfl⟩ := Card.getElem?_concat_cases hc
      · rw [hclosed hc] at hb
        cases hb
      · cases hn

theorem closed_of_ne (h : Booked q s) {i j : Nat} {c c' : Channel} (hc : s.channels[i]? = some c)
    (hc' : s.channels[j]? = some c') (hij : i ≠ j) (hb : c'.bound = true) : c.bound = false := by
  rw [← Bool.not_eq_true]
  exact fun hn => hij (h.alone hc hc' hn hb)

theorem shownAfter_of_kept {call : ChannelCall} {a : Except Fault Nat} {window : Option Nat}
    {n size : Nat} (hn : call.keptAfter a window = some n) (hw : ∀ m, window = some m → size = m) :
    call.shownAfter a size = n := by
  cases call with
  | get max =>
    cases a with
    | ok m => exact Option.some.inj hn
    | error f => exact hw _ hn
  | put count => cases hn
  | _ => exact hw _ hn

theorem shown_of_closed {call : ChannelCall} {c : Channel} {card : Card} {r : PacketRing}
    (hr : card.ring? c.id = some r) (ha : c.Agrees r) (hb : c.bound = false) (n : Nat) :
    call.shownAfter (call.answer c card) n = n := by
  have hok := (call.does hr ha).isOk_answer
  have herror : (∃ max, call = .get max) ∨ (∃ count, call = .put count) →
      (call.answer c card).isOk = false := by
    rw [hok, ← Bool.not_eq_true]
    rintro (⟨max, rfl⟩ | ⟨count, rfl⟩) hn
    · rw [ChannelCall.isOk_get hr, hb] at hn
      cases hn.1
    · obtain ⟨n, hputs⟩ := (ChannelCall.isOk_put hr ha count).mp hn
      exact Bool.false_ne_true (hb.symm.trans hputs.1)
  cases call with
  | get max =>
    have h := herror (.inl ⟨max, rfl⟩)
    cases ha : ChannelCall.answer (.get max) c card with
    | error f => rfl
    | ok n => rw [ha] at h; cases h
  | put count =>
    have h := herror (.inr ⟨count, rfl⟩)
    cases ha : ChannelCall.answer (.put count) c card with
    | error f => rfl
    | ok n => rw [ha] at h; cases h
  | _ => rfl

theorem ask (h : Booked q s) (i : Nat) (call : ChannelCall) : Booked q (s.use q (.ask i call)) := by
  rw [use]
  cases hc : s.channels[i]? with
  | none => exact h
  | some c =>
    obtain ⟨r, hr, ha, hw⟩ := h.ring_of hc
    obtain ⟨hid, hbound, hwindow⟩ := h.channel hc
    have hdoes := call.does hr ha
    have hi : i < s.channels.length := (List.getElem?_eq_some_iff.mp hc).1
    have hlast : (call.run c s.card).2.1.bound = true → c.bound = true := by
      rw [hdoes.bound_eq]
      exact fun hb => (Bool.and_eq_true_iff.mp hb).1
    have hbefore : ∀ {j : Nat} {c' : Channel},
        (s.channels.set i (call.run c s.card).2.1)[j]? = some c' → c'.bound = true →
        ∃ c₀, s.channels[j]? = some c₀ ∧ c₀.bound = true := by
      intro j c' hc' hb
      obtain ⟨rfl, rfl⟩ | ⟨-, hc'⟩ := Card.getElem?_set_cases hc'
      · exact ⟨c, hc, hlast hb⟩
      · exact ⟨c', hc', hb⟩
    dsimp only
    refine ⟨fun e he => ?_, fun hc' => ?_, fun hc' hb => ?_, fun hc' hc'' hb hb' => ?_, ?_,
      fun hc' hb hn => ?_⟩
    · rw [List.length_set]
      rcases List.mem_append.mp he with he | he
      · exact h.known e he
      · rw [List.mem_singleton.mp he]
        exact hi
    · rw [isOpen_concat, kept_concat]
      obtain ⟨rfl, rfl⟩ | ⟨hij, hc'⟩ := Card.getElem?_set_cases hc'
      · rw [if_pos rfl, if_pos rfl, hdoes.id_eq, hdoes.bound_eq, hdoes.window_eq, hbound, hwindow]
        exact ⟨hid, rfl, rfl⟩
      · rw [if_neg hij, if_neg hij]
        exact h.channel hc'
    · have hkept : (c.bound && call.isClose) = false := by
        obtain ⟨rfl, rfl⟩ | ⟨hij, hc'⟩ := Card.getElem?_set_cases hc'
        · rw [hdoes.bound_eq] at hb
          cases hclose : call.isClose
          · exact Bool.and_false _
          · rw [hclose] at hb
            simp at hb
        · rw [h.closed_of_ne hc hc' hij hb]
          rfl
      have hsame := hdoes.isBound_eq hkept
      rw [hid] at hsame
      obtain ⟨c₀, hc₀, hb₀⟩ := hbefore hc' hb
      rw [hsame]
      exact h.taken hc₀ hb₀
    · obtain ⟨c₁, hc₁, hb₁⟩ := hbefore hc' hb
      obtain ⟨c₂, hc₂, hb₂⟩ := hbefore hc'' hb'
      exact h.alone hc₁ hc₂ hb₁ hb₂
    · obtain ⟨r', hr', hw'⟩ := hdoes.ring
      rw [hid] at hr' hw' hw
      exact ⟨r', hr', by rw [hw', hw, shown_concat]⟩
    · rw [shown_concat]
      obtain ⟨rfl, rfl⟩ | ⟨hij, hc'⟩ := Card.getElem?_set_cases hc'
      · rw [hdoes.window_eq] at hn
        exact shownAfter_of_kept hn fun _ => h.agrees hc (hlast hb)
      · rw [shown_of_closed hr ha (h.closed_of_ne hc hc' hij hb)]
        exact h.agrees hc' hb hn

theorem windowOf_hardware (op : PortOp) {card : Card} {r : PacketRing}
    (hr : card.ring? q = some r) :
    ∃ r', (op.run card).ring? q = some r' ∧ r'.windowOf q.direction = r.windowOf q.direction := by
  have hkeep : ∀ (p : QueueId) {α : Type} (f : PacketRing → α × PacketRing),
      (∀ r, (f r).2.windowOf p.direction = r.windowOf p.direction) →
      ∃ r', (card.withRing p f).2.ring? q = some r' ∧
        r'.windowOf q.direction = r.windowOf q.direction := by
    intro p α f hf
    rw [Card.ring?_withRing, hr]
    split
    · next hp =>
      rw [← hp]
      exact ⟨_, rfl, hf r⟩
    · exact ⟨r, rfl, rfl⟩
  cases op with
  | push index data header flags => exact hkeep _ _ fun r => r.exposed_push data header flags
  | pop index => exact hkeep _ _ fun r => r.reserved_pop
  | drain index => exact hkeep _ _ fun r => r.reserved_popAtMost _
  | takeEnd p => exact ⟨r, (PortOp.ring?_takeEnd p q card).trans hr, rfl⟩

theorem hardware (h : Booked q s) (op : PortOp) : Booked q (s.use q (.hardware op)) := by
  obtain ⟨r, hr, hw⟩ := h.ring
  obtain ⟨r', hr', hw'⟩ := windowOf_hardware op hr
  refine ⟨h.known, h.channel, fun hc hb => ?_, h.alone, ⟨r', hr', hw'.trans hw⟩, h.agrees⟩
  exact ((op.alike_run s.card).isBound_eq q).trans (h.taken hc hb)

theorem use (h : Booked q s) (u : ChannelUse) : Booked q (s.use q u) := by
  cases u with
  | reopen => exact h.reopen
  | ask i call => exact h.ask i call
  | hardware op => exact h.hardware op

theorem useAll (h : Booked q s) (uses : List ChannelUse) : Booked q (s.useAll q uses) := by
  induction uses generalizing s with
  | nil => exact h
  | cons u uses ih => exact ih (h.use u)

end Booked

/-- What is outstanding is what the open channel has, and the ring shows no window without it. -/
structure Settled (past : List Exchange) : Prop where
  outstanding_eq : ∀ i, outstanding i past = if isOpen i past then kept i past else none
  shown_eq : (∀ i, outstanding i past = none) → shown past = 0

/-- Which calls are answered. `held` is the burst that `get` and `put` go by, and `seen` the one
whose entries can be looked at. -/
structure Pairs (direction : Direction) (c : Channel) (card : Card) (isOpen : Bool)
    (held seen : Option Nat) : Prop where
  get : ∀ max, ((ChannelCall.get max).run c card).1.isOk = true ↔ isOpen = true ∧ held = none
  put : ∀ count, ((ChannelCall.put count).run c card).1.isOk = true ↔
    isOpen = true ∧ ∃ n, held = some n ∧ (direction = .tx → count ≤ n)
  look : ∀ (call : ChannelCall) offset, call.looksAt direction = some offset →
    ((call.run c card).1.isOk = true ↔ ∃ n, seen = some n ∧ offset < n)

namespace Booked

theorem pairs (h : Booked q s) {i : Nat} {c : Channel} (hc : s.channels[i]? = some c) :
    Pairs q.direction c s.card (isOpen i s.past) (kept i s.past)
      (if isOpen i s.past then some (shown s.past) else none) := by
  obtain ⟨r, hr, ha, hw⟩ := h.ring_of hc
  obtain ⟨hid, hbound, hwindow⟩ := h.channel hc
  refine ⟨fun max => ?_, fun count => ?_, fun call offset hlook => ?_⟩
  · rw [ChannelCall.isOk_get hr, hbound, hwindow]
  · rw [ChannelCall.isOk_put hr ha]
    simp only [Channel.Puts, hbound, hwindow, hid, exists_and_left]
  · rw [← hid] at hlook
    rw [ChannelCall.isOk_look hr hlook, hw, hbound]
    cases isOpen i s.past <;> simp

/-- In an orderly row the answers to `get` and `put` depend on what is outstanding. -/
theorem answers_of_orderly (h : Booked q s) {i : Nat} {c : Channel} (hc : s.channels[i]? = some c)
    {call : ChannelCall} {a : Except Fault Nat} (hans : call.answer c s.card = a)
    (horderly : Orderly q.direction (s.past ++ [⟨i, call, a⟩])) (hs : Settled s.past) :
    match call, a with
    | .get _, .ok _ => isOpen i s.past = true
    | .put _, .error _ => outstanding i s.past = none
    | .close, _ => outstanding i s.past = none
    | _, _ => True := by
  have hpairs := h.pairs hc
  obtain ⟨r, hr, ha, -⟩ := h.ring_of hc
  have hok := (call.does hr ha).isOk_answer
  rw [hans] at hok
  have hrule := horderly s.past _ [] rfl
  cases call with
  | get max =>
    cases a with
    | error f => trivial
    | ok n => exact ((hpairs.get max).mp hok.symm).1
  | put count =>
    cases a with
    | ok n => trivial
    | error f =>
      refine Option.eq_none_iff_forall_ne_some.mpr fun n hn => ?_
      have hout := hs.outstanding_eq i
      rw [hn] at hout
      split at hout
      · next hopen =>
        rw [(hpairs.put count).mpr ⟨hopen, n, hout.symm, hrule n hn⟩] at hok
        cases hok
      · cases hout
  | close => exact Option.eq_none_iff_forall_ne_some.mpr hrule
  | _ => trivial

theorem outstanding_ask (h : Booked q s) {i : Nat} {c : Channel} (hc : s.channels[i]? = some c)
    {call : ChannelCall} {a : Except Fault Nat} (hans : call.answer c s.card = a)
    (horderly : Orderly q.direction (s.past ++ [⟨i, call, a⟩])) (hs : Settled s.past) (j : Nat) :
    outstanding j (s.past ++ [⟨i, call, a⟩]) =
      if isOpen j (s.past ++ [⟨i, call, a⟩]) then kept j (s.past ++ [⟨i, call, a⟩]) else none := by
  have hanswers := h.answers_of_orderly hc hans horderly hs
  have hbefore := hs.outstanding_eq j
  rw [outstanding_concat, isOpen_concat, kept_concat]
  by_cases hij : i = j
  · subst hij
    simp only [if_true]
    cases call with
    | get max =>
      cases a with
      | error f => simpa [outstandingAfter, keptAfter, isClose] using hbefore
      | ok n =>
        rw [show isOpen i s.past = true from hanswers]
        rfl
    | put count =>
      cases a with
      | ok n => simp [outstandingAfter, keptAfter]
      | error f =>
        simp [outstandingAfter, keptAfter, show outstanding i s.past = none from hanswers]
    | close => simp [outstandingAfter, isClose]
    | _ => simpa [outstandingAfter, keptAfter, isClose] using hbefore
  · simp only [if_neg hij]
    exact hbefore

theorem shown_ask (h : Booked q s) {i : Nat} {c : Channel} (hc : s.channels[i]? = some c)
    {call : ChannelCall} {a : Except Fault Nat} (hans : call.answer c s.card = a)
    (horderly : Orderly q.direction (s.past ++ [⟨i, call, a⟩])) (hs : Settled s.past)
    (hnone : ∀ j, outstanding j (s.past ++ [⟨i, call, a⟩]) = none) :
    shown (s.past ++ [⟨i, call, a⟩]) = 0 := by
  have hanswers := h.answers_of_orderly hc hans horderly hs
  have hrest : outstanding i s.past = none → shown s.past = 0 := by
    refine fun hi => hs.shown_eq fun j => ?_
    by_cases hij : i = j
    · exact hij ▸ hi
    · have hj := hnone j
      rw [outstanding_concat, if_neg hij] at hj
      exact hj
  have hi := hnone i
  rw [outstanding_concat, if_pos rfl] at hi
  rw [shown_concat]
  cases call with
  | get max =>
    cases a with
    | error f => exact hrest hi
    | ok n => cases hi
  | put count =>
    cases a with
    | ok n => rfl
    | error f => exact hrest hanswers
  | close => exact hrest hanswers
  | _ => exact hrest hi

/-- Where nothing is closed with a burst outstanding and nothing beyond a burst is put, the ring and
the channel agree on what is outstanding. -/
theorem settled_ask (h : Booked q s) {i : Nat} {c : Channel} (hc : s.channels[i]? = some c)
    {call : ChannelCall} {a : Except Fault Nat} (hans : call.answer c s.card = a)
    (horderly : Orderly q.direction (s.past ++ [⟨i, call, a⟩])) (hs : Settled s.past) :
    Settled (s.past ++ [⟨i, call, a⟩]) :=
  ⟨h.outstanding_ask hc hans horderly hs, h.shown_ask hc hans horderly hs⟩

theorem settled_use (h : Booked q s) (u : ChannelUse)
    (hs : Orderly q.direction s.past → Settled s.past)
    (horderly : Orderly q.direction (s.use q u).past) : Settled (s.use q u).past := by
  cases u with
  | reopen =>
    have hpast : (s.use q .reopen).past = s.past := by
      rw [Openings.use]
      cases s.card.bindChannel q <;> rfl
    rw [hpast] at horderly ⊢
    exact hs horderly
  | ask i call =>
    rw [Openings.use] at horderly ⊢
    cases hc : s.channels[i]? with
    | none =>
      rw [hc] at horderly
      exact hs horderly
    | some c =>
      rw [hc] at horderly
      exact h.settled_ask hc rfl horderly (hs horderly.of_concat)
  | hardware op => exact hs horderly

theorem settled_useAll (h : Booked q s) (uses : List ChannelUse)
    (hs : Orderly q.direction s.past → Settled s.past)
    (horderly : Orderly q.direction (s.useAll q uses).past) :
    Settled (s.useAll q uses).past := by
  induction uses generalizing s with
  | nil => exact hs horderly
  | cons u uses ih => exact ih (h.use u) (h.settled_use u hs) horderly

theorem outstanding_eq_none (h : Booked q s) (hs : Settled s.past) {i : Nat} {c : Channel}
    (hc : s.channels[i]? = some c) (hb : c.bound = true) (hw : c.window = none) (j : Nat) :
    outstanding j s.past = none := by
  obtain ⟨-, -, hwindow⟩ := h.channel hc
  rw [hs.outstanding_eq j]
  split
  · next hj =>
    -- an open channel other than this one has not been asked anything
    cases hc' : s.channels[j]? with
    | some c' =>
      obtain ⟨-, hbound, -⟩ := h.channel hc'
      have hij : i = j := h.alone hc hc' hb (hbound.trans hj)
      rw [← hij, ← hwindow, hw]
    | none =>
      have hlen := List.getElem?_eq_none_iff.mp hc'
      exact track_of_unknown (fun e he => Nat.lt_of_lt_of_le (h.known e he) hlen) _
  · rfl

theorem seen_iff (h : Booked q s) (hs : Settled s.past) {i : Nat} {c : Channel}
    (hc : s.channels[i]? = some c) (offset : Nat) :
    (∃ n, (if isOpen i s.past then some (shown s.past) else none) = some n ∧ offset < n) ↔
      ∃ n, outstanding i s.past = some n ∧ offset < n := by
  obtain ⟨-, hbound, hwindow⟩ := h.channel hc
  have hout := hs.outstanding_eq i
  cases hopen : isOpen i s.past with
  | false =>
    rw [hopen] at hout
    simp [hout]
  | true =>
    rw [hopen] at hout hbound
    rw [hout, ← hwindow]
    cases hw : c.window with
    | some n => simp [h.agrees hc hbound hw]
    | none => simp [hs.shown_eq (h.outstanding_eq_none hs hc hbound hw)]

end Booked

/-- A burst is acquired exactly if the channel is open and has none, and put exactly if it is open
and has one of that size. A burst that fails to be put is lost to the channel, and the window of the
ring may be left from a channel closed before. -/
theorem calls_paired {spec : CardSpec} {card : Card} (hcard : Card.create spec = .ok card)
    (hq : q.index < spec.queueCount q.direction) (uses : List ChannelUse)
    (hs : useAll q uses { card } = s) {i : Nat} {c : Channel} (hc : s.channels[i]? = some c) :
    Pairs q.direction c s.card (isOpen i s.past) (kept i s.past)
        (if isOpen i s.past then some (shown s.past) else none) ∧
      (Orderly q.direction s.past →
        Pairs q.direction c s.card (isOpen i s.past) (outstanding i s.past)
          (outstanding i s.past)) := by
  have hstart := Booked.start hcard hq
  have h : Booked q s := hs ▸ hstart.useAll uses
  have hpairs := h.pairs hc
  refine ⟨hpairs, fun horderly => ?_⟩
  have hsettled : Settled s.past := by
    subst hs
    exact hstart.settled_useAll uses (fun _ => ⟨fun _ => (ite_self _).symm, fun _ => rfl⟩) horderly
  have hout := hsettled.outstanding_eq i
  refine ⟨fun max => ?_, fun count => ?_, fun call offset hlook => ?_⟩
  · rw [hpairs.get, hout]
    cases isOpen i s.past <;> simp
  · rw [hpairs.put, hout]
    cases isOpen i s.past <;> simp
  · rw [hpairs.look call offset hlook]
    exact h.seen_iff hsettled hc offset

def fourSlots : CardSpec :=
  { rxQueues := 1, txQueues := 1, ringCapacity := 4, slotSize := 4 }

def fourFree : Card :=
  (Card.create fourSlots).toOption.get rfl

/-- A second burst is refused, and the first is outstanding all the same. -/
theorem fourSlots_paired :
    Card.create fourSlots = .ok fourFree ∧
      ∃ s, useAll ⟨.tx, 0⟩ [.reopen, .ask 0 (.get 3), .ask 0 (.get 1)] { card := fourFree } = s ∧
        s.channels[0]? = some { id := ⟨.tx, 0⟩, window := some 3 } ∧ Orderly .tx s.past ∧
        Pairs .tx { id := ⟨.tx, 0⟩, window := some 3 } s.card true (some 3) (some 3) := by
  have hcard : Card.create fourSlots = .ok fourFree := rfl
  have horderly : Orderly .tx [⟨0, .get 3, .ok 3⟩, ⟨0, .get 1, .error (.burstHeld ⟨.tx, 0⟩)⟩] := by
    intro earlier e later hpast n hn
    rcases earlier with _ | ⟨e₁, _ | ⟨e₂, earlier⟩⟩
    · cases hn
    · cases hpast
      trivial
    · simp at hpast
  exact ⟨hcard, _, rfl, rfl, horderly,
    (calls_paired (q := ⟨.tx, 0⟩) (i := 0) hcard (by decide) _ rfl rfl).2 horderly⟩

/-- Whether something holds of all channels of a queue, whatever has been done with them. -/
def Always (P : QueueId → Openings → Nat → Channel → Prop) : Prop :=
  ∀ spec card q uses i c, Card.create spec = .ok card →
    (useAll q uses { card }).channels[i]? = some c → P q (useAll q uses { card }) i c

/-- A burst of two that was not put with a count of three is lost: another one is acquired, and the
first cannot be put. A channel that is opened after one was closed with a burst shows its packet. -/
theorem pairing_lost :
    (¬ Always fun _ s i c => ∀ max, ((ChannelCall.get max).run c s.card).1.isOk = true ↔
      isOpen i s.past = true ∧ outstanding i s.past = none) ∧
    (¬ Always fun q s i c => ∀ count, ((ChannelCall.put count).run c s.card).1.isOk = true ↔
      isOpen i s.past = true ∧
        ∃ n, outstanding i s.past = some n ∧ (q.direction = .tx → count ≤ n)) ∧
    ¬ Always fun q s i c => ∀ (call : ChannelCall) offset,
      call.looksAt q.direction = some offset →
        ((call.run c s.card).1.isOk = true ↔ ∃ n, outstanding i s.past = some n ∧ offset < n) := by
  have hcard : Card.create fourSlots = .ok fourFree := rfl
  refine ⟨fun h => ?_, fun h => ?_, fun h => ?_⟩
  · have hget := h fourSlots fourFree ⟨.tx, 0⟩ [.reopen, .ask 0 (.get 2), .ask 0 (.put 3)] 0 _ hcard
      rfl 1
    have hnone := (hget.mp (by decide)).2
    exact absurd hnone (by decide)
  · have hput := h fourSlots fourFree ⟨.tx, 0⟩ [.reopen, .ask 0 (.get 2), .ask 0 (.put 3)] 0 _ hcard
      rfl 2
    have hok := hput.mpr ⟨by decide, 2, by decide, by decide⟩
    exact absurd hok (by decide)
  · have hlook := h fourSlots fourFree ⟨.rx, 0⟩
      [.hardware (.push 0 [1] [] 0), .reopen, .ask 0 (.get 1), .ask 0 .close, .reopen] 1 _ hcard
      rfl (.packet 0) 0 rfl
    obtain ⟨n, hn, -⟩ := hlook.mp (by decide)
    cases hn

end Openings

end DmaBurst
