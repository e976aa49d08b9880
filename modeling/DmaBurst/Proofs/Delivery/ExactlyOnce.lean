import Mathlib
import DmaBurst.Proofs.Delivery.Order
import DmaBurst.Proofs.Ring.Turning

namespace DmaBurst

namespace Rig

open PacketRing

variable {q : QueueId} {rig : Rig} {r : PacketRing} {c : Counts} {f : Fifo} {h : Handle}
  {name len bound : Nat}

theorem view_congr {card card' : Card} (hr : card'.ring? h.queue.channel.id =
    card.ring? h.queue.channel.id) (count : Nat) : h.view count card' = h.view count card := by
  rw [Handle.view, Handle.view, hr]

theorem onQueue_untouched (hs : rig.Serves q r c f) (hn : rig.handles name = some h)
    (ho : h.Owns q) (hb : h.burst = some len) {n : Nat} {op : HandleOp}
    (ht : RigOp.touches name (.onQueue n op) = false) :
    (step (.onQueue n op) rig).handles name = some h ∧
      (step (.onQueue n op) rig).card.ring? q = rig.card.ring? q := by
  by_cases hne : n = name
  · subst hne
    obtain ⟨queue, burst⟩ := h
    cases hb
    have hact : Handle.act op ⟨queue, some len⟩ rig.card = (⟨queue, some len⟩, rig.card) := by
      cases op with
      | start | stop | close | acquire => rfl
      | edit | release | commit | abandon => simp [RigOp.touches] at ht
    rw [step, hn]
    simp only [hact, Function.update_self, and_self]
  · rw [handles_onQueue_of_ne op hne]
    refine ⟨hn, ?_⟩
    rw [step]
    cases hg : rig.handles n with
    | none => rfl
    | some g =>
      by_cases hid : g.queue.channel.id = q
      · have hclosed : g.queue.channel.bound = false := by
          cases hbound : g.queue.channel.bound with
          | false => rfl
          | true => exact absurd (hs.unique hg hn ⟨hid, hbound⟩ ho) hne
        exact (Handle.act_closed (hs.holds hg hid).coherent hclosed op rig.card).2.1.2 q
      · exact ((Handle.act_frame op g rig.card).2 q (Ne.symm hid)).1

theorem view_of_held_eq {card card' : Card} {r' : PacketRing} {c' : Counts} {f' : Fifo}
    (hh : h.Holds card r c f) (hh' : h.Holds card' r' c' f') (hb : h.burst = some len)
    (ha : Addresses r.capacity bound) (hcap : r'.capacity = r.capacity)
    (hc : c.head + r.reserved ≤ bound) (hc' : c'.head + r'.reserved ≤ bound)
    (hf : f'.held h.queue.channel.id.direction = f.held h.queue.channel.id.direction) {count : Nat}
    (hl : count ≤ len) : h.view count card' = h.view count card := by
  obtain ⟨queue, burst⟩ := h
  cases hb
  rw [hh.view_eq ha hc hl, hh'.view_eq (hcap.symm ▸ ha) hc' hl, hf]

theorem view_step (hs : rig.Serves q r c f) (hn : rig.handles name = some h) (ho : h.Owns q)
    (hb : h.burst = some len) {op : RigOp} (ht : op.touches name = false)
    (ha : Addresses r.capacity bound) (hc : c.head + r.reserved ≤ bound)
    (hc' : c.head + ((entering q op rig).length + (step op rig).lent q) ≤ bound) {count : Nat}
    (hl : count ≤ len) :
    (step op rig).handles name = some h ∧
      h.view count (step op rig).card = h.view count rig.card := by
  have hhead := Nat.le_trans (Nat.le_add_right _ _) hc
  have hh := hs.holds hn ho.1
  have hsame : ∀ {rig' : Rig}, rig'.handles name = some h →
      rig'.card.ring? q = rig.card.ring? q →
      rig'.handles name = some h ∧ h.view count rig'.card = h.view count rig.card :=
    fun hn' hr => ⟨hn', view_congr (ho.1.symm ▸ hr) count⟩
  have hport : ∀ {rig' : Rig} {r' c' f'}, rig'.handles name = some h → rig'.Serves q r' c' f' →
      f'.capacity = f.capacity → c'.head = c.head + (entering q op rig).length →
      f'.held q.direction = f.held q.direction → rig'.lent q = (step op rig).lent q →
      rig'.handles name = some h ∧ h.view count rig'.card = h.view count rig.card := by
    intro rig' r' c' f' hn' hs' hcap hhead' hf hlent
    rw [lent_eq hs'.ring] at hlent
    refine ⟨hn', view_of_held_eq hh (hs'.holds hn' ho.1) hb ha ?_ hc (by omega) (ho.1.symm ▸ hf) hl⟩
    rw [← hs'.pictured.capacity_eq, hcap, hs.pictured.capacity_eq]
  cases op with
  | openDevice identifier =>
    exact hsame hn ((Card.SameRings.openDevice identifier rig.card).1.2 q)
  | closeDevice => exact hsame hn ((Card.SameRings.closeDevice rig.card).1.2 q)
  | openQueue n p =>
    rw [step]
    split
    · next hnone hopen =>
      have hne : name ≠ n := by
        intro he
        subst he
        cases hnone.symm.trans hn
      obtain ⟨-, -, rfl⟩ := Queue.openOn_eq hopen
      exact hsame ((Function.update_of_ne hne _ _).trans hn) (by simp)
    · exact ⟨hn, rfl⟩
  | onQueue n op =>
    obtain ⟨hn', hr⟩ := onQueue_untouched hs hn ho hb ht
    exact hsame hn' hr
  | push index data header flags =>
    by_cases hq : q = ⟨.rx, index⟩
    · subst hq
      obtain ⟨r', c', f', hs', hm, hhead', hf⟩ := hs.push data header flags ha (by omega)
      exact hport hn hs' hm.capacity_eq hhead' hf rfl
    · exact hsame hn ((rig.card.ring?_withRing _ q _).trans (if_neg (Ne.symm hq)))
  | pop index =>
    by_cases hq : q = ⟨.tx, index⟩
    · subst hq
      obtain ⟨r', c', f', hs', hm, hhead', hf⟩ := hs.pop ha hhead
      exact hport hn hs' hm.capacity_eq hhead' hf rfl
    · exact hsame hn ((rig.card.ring?_withRing _ q _).trans (if_neg (Ne.symm hq)))
  | drain index =>
    by_cases hq : q = ⟨.tx, index⟩
    · subst hq
      obtain ⟨r', c', f', hs', hm, hhead', hf⟩ := hs.drain ha hhead
      exact hport hn hs' hm.capacity_eq hhead' hf rfl
    · exact hsame hn ((rig.card.ring?_withRing _ q _).trans (if_neg (Ne.symm hq)))

theorem view_run {ops : List RigOp} (hs : rig.Serves q r c f) (hn : rig.handles name = some h)
    (ho : h.Owns q) (hb : h.burst = some len) (ht : ∀ op ∈ ops, op.touches name = false)
    (ha : Addresses r.capacity bound) (hc : c.head + handedOut q ops rig ≤ bound) :
    (run ops rig).handles name = some h ∧
      h.view len (run ops rig).card = h.view len rig.card := by
  induction ops generalizing rig r c f with
  | nil => exact ⟨hn, rfl⟩
  | cons op ops ih =>
    rw [handedOut, ← Nat.add_max_add_left] at hc
    obtain ⟨hc1, hc2⟩ := Nat.max_le.mp hc
    rw [lent_eq hs.ring] at hc1
    have hlent := lent_le_handedOut (q := q) ops (step op rig)
    have hop := ht op List.mem_cons_self
    obtain ⟨hn', hv⟩ := view_step hs hn ho hb hop ha hc1 (by omega) (Nat.le_refl len)
    obtain ⟨r', c', f', hs', hm, hhead⟩ := hs.step op ha hc1 (by omega)
    have hcap : r'.capacity = r.capacity := by
      rw [← hs'.pictured.capacity_eq, hm.capacity_eq, hs.pictured.capacity_eq]
    obtain ⟨hn'', hv'⟩ := ih hs' hn' (fun op ho => ht op (List.mem_cons_of_mem _ ho))
      (hcap.symm ▸ ha) (by omega)
    exact ⟨hn'', hv'.trans hv⟩

theorem run_append (ops more : List RigOp) (rig : Rig) :
    run (ops ++ more) rig = run more (run ops rig) := by
  induction ops generalizing rig with
  | nil => rfl
  | cons op ops ih => exact ih _

theorem serves_ofCard {spec : CardSpec} {card : Card} (hcard : Card.create spec = .ok card)
    (hq : q.index < spec.queueCount q.direction) (hcap : spec.capacityOf q < 2 ^ 64) :
    ∃ r, r.capacity = spec.capacityOf q ∧ (ofCard card).Serves q r ⟨0, 0, 0, 0⟩
      ⟨spec.capacityOf q, spec.slotSize, spec.headerSize, [], [], 0⟩ := by
  obtain ⟨hspec, r, hr, hline⟩ := Card.create_line hcard hq
  obtain ⟨-, hshow⟩ := shows_of_create hcap hr
  subst hspec
  have hring : (ofCard card).card.ring? q = some r := by
    rw [Card.ring?, ofCard, hline]
    rfl
  exact ⟨r, hshow.capacity_eq.symm, hring, hshow, rfl, rfl, (fun hn => by cases hn),
    (fun hn => by cases hn), (fun hn => by cases hn)⟩

/-- What has entered a queue has left it, in order and once, or still lies in its ring, for one turn
of the 64-bit index, and for ever if the capacity divides it. -/
theorem run_exactly_once {spec : CardSpec} {card : Card} (hcard : Card.create spec = .ok card)
    (hq : q.index < spec.queueCount q.direction) (hcap : spec.capacityOf q < 2 ^ 64)
    (ops more : List RigOp)
    (hturn : spec.capacityOf q ∣ 2 ^ 64 ∨ handedOut q (ops ++ more) (ofCard card) ≤ 2 ^ 64) :
    ∃ r, (run ops (ofCard card)).card.ring? q = some r ∧
      entered q ops (ofCard card) = left q ops (ofCard card) ++ r.contents ∧
      r.contents.length ≤ spec.capacityOf q ∧
      (q.direction = .rx → ∀ data header flags,
        ((run ops (ofCard card)).card.push q data header flags).1 = false ↔
          r.contents.length = spec.capacityOf q) ∧
      ∀ name h len, (run ops (ofCard card)).handles name = some h → h.queue.channel.id = q →
        h.burst = some len →
        (q.direction = .rx → len ≤ r.contents.length ∧
          h.view len (run ops (ofCard card)).card = r.contents.take len) ∧
        ((∀ op ∈ more, op.touches name = false) →
          (run (ops ++ more) (ofCard card)).handles name = some h ∧
          h.view len (run (ops ++ more) (ofCard card)).card =
            h.view len (run ops (ofCard card)).card) := by
  obtain ⟨r₀, hcap₀, hs₀⟩ := serves_ofCard hcard hq hcap
  have ha₀ := addresses_of_dvd_or_le hturn
  rw [← hcap₀] at ha₀
  obtain ⟨r, c, f, hs, hm, hc⟩ := hs₀.run more ha₀ (Nat.zero_add _).le
  have hsize : f.capacity = spec.capacityOf q := hm.capacity_eq
  have ha : Addresses r.capacity (handedOut q (ops ++ more) (ofCard card)) := by
    rwa [← hs.pictured.capacity_eq, hsize, ← hcap₀]
  have hlent := lent_le_handedOut (q := q) more (run ops (ofCard card))
  rw [lent_eq hs.ring] at hlent
  have hcontents : r.contents = f.queue := hs.pictured.contents (ha.mono (by omega))
  have hle := hs.pictured.length_le
  rw [hsize] at hle
  refine ⟨r, hs.ring, ?_, hcontents ▸ hle, fun _ data header flags => ?_,
    fun name h len hn hid hb => ⟨fun hd => ?_, fun ht => ?_⟩⟩
  · rw [hcontents, ← hm.queue_eq]
    rfl
  · rw [Card.push, Card.withRing_fst hs.ring, hs.pictured.push_fst, hsize, decide_eq_false_iff_not,
      hcontents]
    omega
  · have hw := (hs.holds hn hid).window len hb
    rw [hid, hd, windowOf, ← hs.pictured.exposed_eq] at hw
    have hview : h.view len (run ops (ofCard card)).card = (f.held q.direction).take len := by
      obtain ⟨queue, burst⟩ := h
      cases hb
      rw [(hs.holds hn hid).view_eq ha (by omega) (Nat.le_refl len), ← hid]
    rw [hview, hcontents, hd, Fifo.held, hw, List.take_take, Nat.min_self, ← hw,
      hs.pictured.exposed_eq]
    exact ⟨hs.pictured.exposed_le, rfl⟩
  · rw [run_append]
    exact view_run hs hn (hs.owns hn hid hb) hb ht ha hc

def reopening : List RigOp :=
  [.openDevice "0", .openQueue 0 ⟨.rx, 0⟩, .push 0 [1, 2, 3] [] 0, .onQueue 0 .start,
    .push 0 [4] [] 7, .push 0 [5] [] 0, .push 0 [6] [] 0, .onQueue 0 (.acquire 2),
    .onQueue 0 .release, .onQueue 0 .close, .push 0 [8] [] 0, .openQueue 1 ⟨.rx, 0⟩,
    .onQueue 1 .start, .onQueue 1 (.acquire 1)]

theorem reopening_exactly_once :
    ∃ card, Card.create { rxQueues := 1, txQueues := 1, ringCapacity := 3, slotSize := 2 } =
        .ok card ∧
      handedOut ⟨.rx, 0⟩ (reopening ++ [.push 0 [9] [] 0, .closeDevice]) (ofCard card) ≤ 2 ^ 64 ∧
      ∃ r, (run reopening (ofCard card)).card.ring? ⟨.rx, 0⟩ = some r ∧
        entered ⟨.rx, 0⟩ reopening (ofCard card) =
          left ⟨.rx, 0⟩ reopening (ofCard card) ++ r.contents := by
  refine ⟨_, rfl, ?_, ?_⟩
  · decide +kernel
  · have hcard : Card.create { rxQueues := 1, txQueues := 1, ringCapacity := 3, slotSize := 2 } =
        .ok _ := rfl
    obtain ⟨r, hr, horder, -⟩ := run_exactly_once (q := ⟨.rx, 0⟩) hcard (by decide) (by decide)
      reopening [.push 0 [9] [] 0, .closeDevice] (.inr (by decide +kernel))
    exact ⟨r, hr, horder⟩

theorem entered_append (ops more : List RigOp) (rig : Rig) :
    entered q (ops ++ more) rig = entered q ops rig ++ entered q more (run ops rig) := by
  induction ops generalizing rig with
  | nil => rfl
  | cons op ops ih =>
    rw [List.cons_append, entered, ih, ← List.append_assoc]
    rfl

theorem left_append (ops more : List RigOp) (rig : Rig) :
    left q (ops ++ more) rig = left q ops rig ++ left q more (run ops rig) := by
  induction ops generalizing rig with
  | nil => rfl
  | cons op ops ih =>
    rw [List.cons_append, left, ih, ← List.append_assoc]
    rfl

section Overrun

def sixOut : CardSpec where
  rxQueues := 0
  txQueues := 1
  ringCapacity := 6
  slotSize := 1
  components := []

def spinning (ring : PacketRing) (handle : Handle) (others : Nat → Option Handle) : Rig where
  card :=
    { spec := sixOut
      rx := #[]
      tx := #[{ ring, bound := true }]
      registers := #[]
      events := #[.deviceOpened, .queueOpened ⟨.tx, 0⟩, .queueStarted ⟨.tx, 0⟩]
      deviceOpen := true }
  handles := Function.update others 0 (some handle)

def spinningQueue (stats : QueueStats) : Queue where
  id := ⟨.tx, 0⟩
  state := .started
  channel := { id := ⟨.tx, 0⟩, started := true }
  stats

def opening : List RigOp :=
  [.openDevice "0", .openQueue 0 ⟨.tx, 0⟩, .onQueue 0 .start]

/-- One empty packet, taken off at once. For it the driver borrows the whole ring. -/
def turn : List RigOp :=
  [.onQueue 0 (.acquire 6), .onQueue 0 (.commit 1), .pop 0]

def turns : Nat → List RigOp
  | 0 => []
  | k + 1 => turns k ++ turn

/-- Three packets that nobody takes, and a burst of two. -/
def crowding : List RigOp :=
  [.onQueue 0 (.acquire 3), .onQueue 0 (.edit 0 (.write [1])), .onQueue 0 .release,
    .onQueue 0 (.acquire 2)]

variable {i seen : UInt64}

theorem borrow_turn (h : seen = i ∨ seen = i - 1) (stats : QueueStats)
    (others : Nat → Option Handle) :
    ∃ others', step (.onQueue 0 (.acquire 6))
      (spinning (level 5 1 i seen) ⟨spinningQueue stats, none⟩ others) =
        spinning { level 5 1 i i with reserved := 6 } ⟨(spinningQueue stats).lent 6 6, some 6⟩
          others' := by
  have hacquire : (spinningQueue stats).acquire 6 (level 5 1 i seen) =
      (.ok 6, (spinningQueue stats).lent 6 6, { level 5 1 i i with reserved := 6 }) := by
    rw [Queue.acquire_ready ⟨rfl, rfl, rfl⟩]
    change (Except.ok ((level 5 1 i seen).reserve 6).1,
      (spinningQueue stats).lent 6 ((level 5 1 i seen).reserve 6).1,
      ((level 5 1 i seen).reserve 6).2) = _
    rw [reserve_level h]
  refine ⟨Function.update others 0 (some ⟨spinningQueue stats, none⟩), ?_⟩
  change spinning ((spinningQueue stats).acquire 6 (level 5 1 i seen)).2.2
    ⟨((spinningQueue stats).acquire 6 (level 5 1 i seen)).2.1,
      ((spinningQueue stats).acquire 6 (level 5 1 i seen)).1.toOption⟩ _ = _
  rw [hacquire]
  rfl

theorem lends_turn (stats : QueueStats) (i : UInt64) :
    ((spinningQueue stats).lent 6 6).Lends 6 { level 5 1 i i with reserved := 6 } :=
  ⟨rfl, rfl, rfl⟩

theorem send_turn (i : UInt64) (stats : QueueStats) (others : Nat → Option Handle) :
    ∃ stats' others', step (.onQueue 0 (.commit 1))
        (spinning { level 5 1 i i with reserved := 6 } ⟨(spinningQueue stats).lent 6 6, some 6⟩
          others) =
      spinning { level 5 1 i i with head := i + 1 } ⟨spinningQueue stats', none⟩ others' := by
  obtain ⟨bytes, hput⟩ := (lends_turn stats i).put_channel (by decide : 1 ≤ 6)
  have hcommit : Queue.commit 6 1 ((spinningQueue stats).lent 6 6)
      { level 5 1 i i with reserved := 6 } = _ := (if_pos (by decide)).trans hput
  refine ⟨(((spinningQueue stats).lent 6 6).ended 1 bytes).stats,
    Function.update others 0 (some ⟨(spinningQueue stats).lent 6 6, some 6⟩), ?_⟩
  change spinning
    (Queue.commit 6 1 ((spinningQueue stats).lent 6 6) { level 5 1 i i with reserved := 6 }).2.2
    ⟨(Queue.commit 6 1 ((spinningQueue stats).lent 6 6) { level 5 1 i i with reserved := 6 }).2.1,
      none⟩ _ = _
  rw [hcommit]
  rfl

theorem entering_turn (stats : QueueStats) (others : Nat → Option Handle) (i : UInt64) :
    entering ⟨.tx, 0⟩ (.onQueue 0 (.commit 1)) (spinning { level 5 1 i i with reserved := 6 }
      ⟨(spinningQueue stats).lent 6 6, some 6⟩ others) = [⟨[], [], 0⟩] := by
  change [0].filterMap (fun k => (((spinningQueue stats).lent 6 6).visible 6 k
    { level 5 1 i i with reserved := 6 }).toOption) = _
  rw [List.filterMap_cons, (lends_turn stats i).visible (by decide)]
  change [(slotAt (level 5 1 i i) i 0).packet] = _
  rw [slotAt_level]
  rfl

/-- One packet has gone through the ring. -/
theorem run_turn (h : seen = i ∨ seen = i - 1) (stats : QueueStats)
    (others : Nat → Option Handle) :
    ∃ stats' others', run turn (spinning (level 5 1 i seen) ⟨spinningQueue stats, none⟩ others) =
        spinning (level 5 1 (i + 1) i) ⟨spinningQueue stats', none⟩ others' ∧
      entered ⟨.tx, 0⟩ turn (spinning (level 5 1 i seen) ⟨spinningQueue stats, none⟩ others) =
        [⟨[], [], 0⟩] ∧
      left ⟨.tx, 0⟩ turn (spinning (level 5 1 i seen) ⟨spinningQueue stats, none⟩ others) =
        [⟨[], [], 0⟩] := by
  obtain ⟨others₁, hborrow⟩ := borrow_turn h stats others
  obtain ⟨stats₂, others₂, hsend⟩ := send_turn i stats others₁
  have hpop : PacketRing.pop { level 5 1 i i with head := i + 1 } =
      (some ⟨[], [], 0⟩, level 5 1 (i + 1) i) := pop_level
  refine ⟨stats₂, others₂, ?_, ?_, ?_⟩
  · rw [turn, run, hborrow, run, hsend]
    change spinning (PacketRing.pop { level 5 1 i i with head := i + 1 }).2 _ _ = _
    rw [hpop]
  · rw [turn, entered, hborrow, entered, entering_turn]
    rfl
  · rw [turn, left, hborrow, left, hsend]
    change [] ++ ([] ++ ((PacketRing.pop { level 5 1 i i with head := i + 1 }).1.toList ++ [])) = _
    rw [hpop]
    rfl

theorem run_turns (stats : QueueStats) (others : Nat → Option Handle) (count : Nat) :
    ∃ stats' others', run (turns (count + 1))
          (spinning (level 5 1 0 0) ⟨spinningQueue stats, none⟩ others) =
        spinning (level 5 1 (.ofNat (count + 1)) (.ofNat count)) ⟨spinningQueue stats', none⟩
          others' ∧
      entered ⟨.tx, 0⟩ (turns (count + 1))
          (spinning (level 5 1 0 0) ⟨spinningQueue stats, none⟩ others) =
        List.replicate (count + 1) ⟨[], [], 0⟩ ∧
      left ⟨.tx, 0⟩ (turns (count + 1))
          (spinning (level 5 1 0 0) ⟨spinningQueue stats, none⟩ others) =
        List.replicate (count + 1) ⟨[], [], 0⟩ := by
  induction count with
  | zero => exact run_turn (.inl rfl) stats others
  | succ count ih =>
    obtain ⟨stats₁, others₁, hrun, hentered, hleft⟩ := ih
    obtain ⟨stats₂, others₂, hrun', hentered', hleft'⟩ :=
      run_turn (i := .ofNat (count + 1)) (.inr (ofNat_eq_succ_sub count)) stats₁ others₁
    refine ⟨stats₂, others₂, ?_, ?_, ?_⟩
    · rw [turns, run_append, hrun, hrun', ofNat_succ (count + 1)]
    · rw [turns, entered_append, hrun, hentered, hentered', List.replicate_succ' (n := count + 1)]
    · rw [turns, left_append, hrun, hleft, hleft', List.replicate_succ' (n := count + 1)]

/-- Of the burst at the end, the second slot has index `2 ^ 64`, which wraps, and lies at the place
of the oldest packet, which is cleared. -/
theorem burst_clears_packet : ∃ card r, Card.create sixOut = .ok card ∧
    (run (opening ++ (turns (2 ^ 64 - 4) ++ crowding)) (ofCard card)).card.ring? ⟨.tx, 0⟩ =
      some r ∧
    (entered ⟨.tx, 0⟩ (opening ++ (turns (2 ^ 64 - 4) ++ crowding)) (ofCard card)).length <
      2 ^ 64 ∧
    entered ⟨.tx, 0⟩ (opening ++ (turns (2 ^ 64 - 4) ++ crowding)) (ofCard card) ≠
      left ⟨.tx, 0⟩ (opening ++ (turns (2 ^ 64 - 4) ++ crowding)) (ofCard card) ++ r.contents := by
  obtain ⟨card, hcard, others₀, hopening, hnone, hnone'⟩ : ∃ card, Card.create sixOut = .ok card ∧
      ∃ others, run opening (ofCard card) =
          spinning (level 5 1 0 0) ⟨spinningQueue {}, none⟩ others ∧
        entered ⟨.tx, 0⟩ opening (ofCard card) = [] ∧ left ⟨.tx, 0⟩ opening (ofCard card) = [] :=
    ⟨_, rfl, _, rfl, rfl, rfl⟩
  obtain ⟨stats, others, hrun, hentered, hleft⟩ := run_turns {} others₀ (2 ^ 64 - 5)
  rw [show 2 ^ 64 - 5 + 1 = 2 ^ 64 - 4 from rfl] at hrun hentered hleft
  have hcrowded : entered ⟨.tx, 0⟩ crowding (spinning (level 5 1 (.ofNat (2 ^ 64 - 4))
      (.ofNat (2 ^ 64 - 5))) ⟨spinningQueue stats, none⟩ others) =
        [⟨[1], [], 0⟩, ⟨[], [], 0⟩, ⟨[], [], 0⟩] := by
    cbv
  have hkept : left ⟨.tx, 0⟩ crowding (spinning (level 5 1 (.ofNat (2 ^ 64 - 4))
      (.ofNat (2 ^ 64 - 5))) ⟨spinningQueue stats, none⟩ others) = [] := rfl
  have hring : ((run crowding (spinning (level 5 1 (.ofNat (2 ^ 64 - 4)) (.ofNat (2 ^ 64 - 5)))
      ⟨spinningQueue stats, none⟩ others)).card.ring? ⟨.tx, 0⟩).map PacketRing.contents =
        some [⟨[], [], 0⟩, ⟨[], [], 0⟩, ⟨[], [], 0⟩] := by
    cbv
  obtain ⟨r, hr, hcontents⟩ := Option.map_eq_some_iff.mp hring
  refine ⟨card, r, hcard, ?_, ?_, ?_⟩
  · rw [run_append, run_append, hopening, hrun, hr]
  · rw [entered_append, entered_append, hopening, hrun, hnone, hentered, hcrowded, List.nil_append,
      List.length_append, List.length_replicate]
    simp only [List.length_cons, List.length_nil]
    omega
  · rw [entered_append, entered_append, left_append, left_append, hopening, hrun, hnone, hnone',
      hentered, hleft, hcrowded, hkept, hcontents, List.append_nil, List.nil_append,
      List.nil_append, Ne, List.append_cancel_left_eq]
    decide

end Overrun

end Rig

end DmaBurst
