import DmaBurst.Proofs.Contract.Kept
import DmaBurst.Proofs.Lifecycle.Writes

namespace DmaBurst

structure Bench where
  rig : Rig
  devices : Finset Nat := ∅

/-- What can happen to the device and its queues. A queue is opened through a device that is held,
and may outlive it. -/
inductive BenchOp where
  | openDevice (device : Nat) (identifier : String)
  | dropDevice (device : Nat)
  | openQueue (device name : Nat) (q : QueueId)
  | onQueue (name : Nat) (op : HandleOp)
  | push (index : Nat) (data header : Bytes) (flags : UInt16)
  | pop (index : Nat)
  | drain (index : Nat)

inductive Refusal where
  | device (cause : DeviceError)
  | queue (cause : QueueError)

namespace Bench

def ofCard (card : Card) : Bench :=
  { rig := .ofCard card }

/-- A device under a name that is taken, or through a name that stands for none, cannot be asked
for. -/
def step : BenchOp → Bench → Bench
  | .openDevice device identifier, b =>
    match b.rig.card.openDevice identifier with
    | .ok _ =>
      if device ∈ b.devices then b
      else ⟨b.rig.step (.openDevice identifier), insert device b.devices⟩
    | .error _ => b
  | .dropDevice device, b =>
    if device ∈ b.devices then ⟨b.rig.step .closeDevice, b.devices.erase device⟩ else b
  | .openQueue device name q, b =>
    if device ∈ b.devices then { b with rig := b.rig.step (.openQueue name q) } else b
  | .onQueue name op, b => { b with rig := b.rig.step (.onQueue name op) }
  | .push index data header flags, b => { b with rig := b.rig.step (.push index data header flags) }
  | .pop index, b => { b with rig := b.rig.step (.pop index) }
  | .drain index, b => { b with rig := b.rig.step (.drain index) }

def run : List BenchOp → Bench → Bench
  | [], b => b
  | op :: ops, b => run ops (step op b)

def refusal? : BenchOp → Bench → Option Refusal
  | .openDevice _ identifier, b =>
    match b.rig.card.openDevice identifier with
    | .ok _ => none
    | .error e => some (.device e)
  | .openQueue _ _ q, b =>
    match Queue.openOn q b.rig.card with
    | .ok _ => none
    | .error e => some (.device e)
  | .onQueue name op, b => (b.rig.handles name).bind fun h => (h.refusal? op b.rig.card).map .queue
  | _, _ => none

/-- Besides what is kept of a rig: the device is open while somebody holds it, and the journal says
of every queue, and of the device, what leads to the state that they are in. -/
structure Lawful (spec : CardSpec) (b : Bench) : Prop where
  kept : b.rig.Kept
  spec_eq : b.rig.card.spec = spec
  id_eq : ∀ {name h}, b.rig.handles name = some h → h.queue.id = h.queue.channel.id
  devices_card : b.devices.card = if b.rig.card.deviceOpen then 1 else 0
  device_mem : b.rig.card.deviceJournal ∈ deviceUpTo b.rig.card.deviceOpen
  owned_mem : ∀ {name h q}, b.rig.handles name = some h → h.Owns q →
    b.rig.card.queueJournal q ∈ upTo q h.queue.state
  idle_mem : ∀ {q}, b.rig.card.isBound q = false → b.rig.card.queueJournal q ∈ upTo q .closed

end Bench

namespace Card

variable {card card' : Card} {q : QueueId} {events : List Event}

theorem queueJournal_self (h : card'.journal = card.journal ++ events)
    (own : ∀ e ∈ events, e.queue? = some q) :
    card'.queueJournal q = card.queueJournal q ++ events := by
  have hall : events.filter (·.queue? = some q) = events :=
    List.filter_eq_self.mpr fun e he => decide_eq_true (own e he)
  rw [queueJournal, h, List.filter_append, hall]
  rfl

theorem queueJournal_other {p : QueueId} (h : card'.journal = card.journal ++ events)
    (own : ∀ e ∈ events, e.queue? ≠ some p) : card'.queueJournal p = card.queueJournal p := by
  have hnone : events.filter (·.queue? = some p) = [] :=
    List.filter_eq_nil_iff.mpr fun e he => by simpa using own e he
  rw [queueJournal, h, List.filter_append, hnone, List.append_nil]
  rfl

theorem deviceJournal_append (h : card'.journal = card.journal ++ events) :
    card'.deviceJournal = card.deviceJournal ++ events.filter Event.ofDevice := by
  rw [deviceJournal, h, List.filter_append]
  rfl

theorem deviceJournal_other (h : card'.journal = card.journal ++ events)
    (own : ∀ e ∈ events, e.queue? = some q) : card'.deviceJournal = card.deviceJournal := by
  have hnone : events.filter Event.ofDevice = [] := by
    refine List.filter_eq_nil_iff.mpr fun e he => ?_
    have hq := own e he
    cases e <;> simp_all [Event.queue?, Event.ofDevice]
  rw [deviceJournal_append h, hnone, List.append_nil]

theorem bindRefusal_eq_none_iff :
    card.bindRefusal q = none ↔ q.index < card.spec.queueCount q.direction ∧
      q ∉ card.spec.refusesOpen ∧ card.isBound q = false := by
  rw [bindRefusal, isBound]
  split_ifs with hindex hopen hbound
  · simp [hindex]
  · simp [hopen]
  · simp [hbound]
  · simp_all

end Card

namespace Bench

variable {spec : CardSpec} {b : Bench} {card : Card}

theorem lawful_ofCard (hcard : Card.create spec = .ok card) : (ofCard card).Lawful spec := by
  have hkept := Rig.Kept.ofCard hcard
  obtain ⟨_, _, -, -, rfl⟩ := Card.create_eq hcard
  exact ⟨hkept, rfl, (fun hn => by cases hn), rfl, Language.nil_mem_kstar _,
    (fun hn => by cases hn), fun _ => Language.nil_mem_kstar _⟩

namespace Lawful

theorem isBound_eq_false_iff (hb : b.Lawful spec) (q : QueueId) :
    b.rig.card.isBound q = false ↔
      ∀ name h, b.rig.handles name = some h → h.queue.id = q → h.queue.state = .closed := by
  rw [← Bool.not_eq_true, hb.kept.bound_iff]
  constructor
  · intro hn name h hh hid
    by_contra hopen
    have howns : h.Owns q :=
      ⟨(hb.id_eq hh).symm.trans hid, (hb.kept.sane hh).coherent.bound_iff.mpr hopen⟩
    exact hn ⟨name, h, hh, howns⟩
  · rintro hall ⟨name, h, hh, hid, hbound⟩
    exact (hb.kept.sane hh).coherent.bound_iff.mp hbound (hall name h hh ((hb.id_eq hh).trans hid))

theorem onDevice (hb : b.Lawful spec) {devices : Finset Nat} {e : Event}
    (hkept : Rig.Kept { b.rig with card }) (hspec : card.spec = b.rig.card.spec)
    (hbound : ∀ q, card.isBound q = b.rig.card.isBound q)
    (hj : card.journal = b.rig.card.journal ++ [e]) (he : e.queue? = none)
    (hcard : devices.card = if card.deviceOpen then 1 else 0)
    (hmem : card.deviceJournal ∈ deviceUpTo card.deviceOpen) :
    Lawful spec ⟨{ b.rig with card }, devices⟩ := by
  have hqueue : ∀ q, card.queueJournal q = b.rig.card.queueJournal q := by
    refine fun q => Card.queueJournal_other hj fun e' he' => ?_
    rw [List.mem_singleton.mp he', he]
    exact (Option.some_ne_none q).symm
  refine ⟨hkept, hspec.trans hb.spec_eq, hb.id_eq, hcard, hmem, fun {name h q} hn ho => ?_,
    fun {q} hq => ?_⟩
  · rw [hqueue]
    exact hb.owned_mem hn ho
  · rw [hqueue]
    exact hb.idle_mem ((hbound q).symm.trans hq)

theorem openDevice (hb : b.Lawful spec) (device : Nat) (identifier : String) :
    (step (.openDevice device identifier) b).Lawful spec := by
  rw [step]
  split
  · next card ho =>
    split
    · exact hb
    · next hd =>
      have hkept := hb.kept.step (.openDevice identifier)
      have hsame := (Card.SameRings.openDevice identifier b.rig.card).2
      have hnone := hb.devices_card
      have hmem := hb.device_mem
      rw [Rig.step, ho] at hkept ⊢
      rw [ho] at hsame
      obtain ⟨-, hclosed, rfl⟩ := Card.openDevice_eq ho
      rw [hclosed] at hnone hmem
      have hj : (Card.record .deviceOpened { b.rig.card with deviceOpen := true }).journal =
          b.rig.card.journal ++ [.deviceOpened] := Card.journal_record _ _
      refine hb.onDevice hkept rfl hsame hj rfl ?_ ?_
      · rw [Finset.card_insert_of_notMem hd, hnone]
        rfl
      · change (Card.record _ _).deviceJournal ∈ _
        rw [Card.deviceJournal_append hj]
        exact append_event _ hmem
  · exact hb

theorem dropDevice (hb : b.Lawful spec) (device : Nat) :
    (step (.dropDevice device) b).Lawful spec := by
  rw [step]
  split
  · next hd =>
    have hopen : b.rig.card.deviceOpen = true := by
      by_contra hn
      have hnone := hb.devices_card
      rw [if_neg hn, Finset.card_eq_zero] at hnone
      exact Finset.notMem_empty device (hnone ▸ hd)
    have hone := hb.devices_card
    have hmem := hb.device_mem
    rw [hopen] at hone hmem
    have hj : b.rig.card.closeDevice.journal = b.rig.card.journal ++ [.deviceClosed] :=
      Card.journal_record _ _
    refine hb.onDevice (hb.kept.step .closeDevice) rfl (Card.SameRings.closeDevice _).2 hj rfl ?_ ?_
    · rw [Finset.card_erase_of_mem hd, hone]
      rfl
    · rw [Card.deviceJournal_append hj]
      exact append_deviceClosed hmem
  · exact hb

theorem openQueue (hb : b.Lawful spec) (device name : Nat) (q : QueueId) :
    (step (.openQueue device name q) b).Lawful spec := by
  rw [step]
  split
  · have hkept := hb.kept.step (.openQueue name q)
    rw [Rig.step] at hkept ⊢
    split at hkept
    · next hnone hopen =>
      obtain ⟨hr, rfl, rfl⟩ := Queue.openOn_eq hopen
      have hfree := Queue.not_isBound_of_bindRefusal hr
      have hj : ((b.rig.card.setBound q true).record (.queueOpened q)).journal =
          b.rig.card.journal ++ [.queueOpened q] := by
        rw [Card.journal_record, Card.journal_setBound]
      have hown : ∀ e ∈ [Event.queueOpened q], e.queue? = some q :=
        fun e he => List.mem_singleton.mp he ▸ rfl
      have hother : ∀ p, p ≠ q → ((b.rig.card.setBound q true).record (.queueOpened q)).queueJournal
          p = b.rig.card.queueJournal p := by
        refine fun p hp => Card.queueJournal_other hj fun e he => ?_
        rw [hown e he]
        exact fun hn => hp (Option.some.inj hn).symm
      refine ⟨hkept, (Card.spec_setBound q true _).trans hb.spec_eq, fun {n g} hg => ?_, ?_, ?_,
        fun {n g p} hg ho => ?_, fun {p} hp => ?_⟩
      · rcases Rig.Kept.update_eq_some.mp hg with ⟨-, rfl⟩ | ⟨-, hg⟩
        · rfl
        · exact hb.id_eq hg
      · simpa using hb.devices_card
      · rw [Card.deviceJournal_other hj hown]
        simpa using hb.device_mem
      · rcases Rig.Kept.update_eq_some.mp hg with ⟨-, rfl⟩ | ⟨-, hold⟩
        · obtain rfl : q = p := ho.1
          rw [Card.queueJournal_self hj hown]
          exact append_opened (hb.idle_mem hfree)
        · have hbound := (hb.kept.bound_iff p).mpr ⟨n, g, hold, ho⟩
          have hp : p ≠ q := by
            rintro rfl
            exact Bool.false_ne_true (hfree.symm.trans hbound)
          rw [hother p hp]
          exact hb.owned_mem hold ho
      · have hpq : p ≠ q := by
          rintro rfl
          exact Bool.false_ne_true (hp.symm.trans
            ((hkept.bound_iff p).mpr ⟨name, _, Function.update_self .., rfl, rfl⟩))
        rw [hother p hpq]
        rw [Card.isBound_record, Card.isBound_setBound, if_neg hpq.symm] at hp
        exact hb.idle_mem hp
    · exact hb
  · exact hb

theorem onQueue (hb : b.Lawful spec) (name : Nat) (op : HandleOp) :
    (step (.onQueue name op) b).Lawful spec := by
  have hkept := hb.kept.step (.onQueue name op)
  rw [step]
  cases hn : b.rig.handles name with
  | none =>
    rw [Rig.step, hn]
    exact hb
  | some h =>
    have hs := hb.kept.sane hn
    rw [Rig.step, hn] at hkept ⊢
    cases hbound : h.queue.channel.bound with
    | false =>
      dsimp only
      rw [Handle.act_of_closed hs hbound, ← hn, Function.update_eq_self]
      exact hb
    | true =>
      obtain ⟨events, hw⟩ := Handle.act_writes hs op
      have hid := Handle.act_id op h b.rig.card
      obtain ⟨hspec, hframe⟩ := Handle.act_frame op h b.rig.card
      have hmine : h.Owns h.queue.channel.id := ⟨rfl, hbound⟩
      have hother : ∀ p, p ≠ h.queue.channel.id →
          (h.act op b.rig.card).2.queueJournal p = b.rig.card.queueJournal p := by
        refine fun p hp => Card.queueJournal_other hw.journal_eq fun e he => ?_
        rw [hw.leads.own e he]
        exact fun heq => hp (Option.some.inj heq).symm
      -- The queue that is worked on is in the state to which its journal has been led.
      have hself : (h.act op b.rig.card).2.queueJournal h.queue.channel.id ∈
          upTo h.queue.channel.id (h.act op b.rig.card).1.queue.state := by
        rw [Card.queueJournal_self hw.journal_eq hw.leads.own]
        exact hw.leads.append _ (hb.owned_mem hn hmine)
      refine ⟨hkept, hspec.trans hb.spec_eq, fun {n g} hg => ?_, ?_, ?_, fun {n g p} hg ho => ?_,
        fun {p} hp => ?_⟩
      · rcases Rig.Kept.update_eq_some.mp hg with ⟨-, rfl⟩ | ⟨-, hg⟩
        · exact (hw.id_eq.trans (hb.id_eq hn)).trans hid.symm
        · exact hb.id_eq hg
      · exact hw.deviceOpen_eq ▸ hb.devices_card
      · dsimp only
        rw [Card.deviceJournal_other hw.journal_eq hw.leads.own, hw.deviceOpen_eq]
        exact hb.device_mem
      · rcases Rig.Kept.update_eq_some.mp hg with ⟨-, rfl⟩ | ⟨hne, hg⟩
        · obtain rfl : h.queue.channel.id = p := hid.symm.trans ho.1
          exact hself
        · have hp : p ≠ h.queue.channel.id := by
            rintro rfl
            exact hne (hb.kept.unique hg hn ho hmine)
          dsimp only
          rw [hother p hp]
          exact hb.owned_mem hg ho
      · by_cases hpid : p = h.queue.channel.id
        · subst hpid
          have hclosed : (h.act op b.rig.card).1.queue.state = .closed := by
            by_contra hopen
            have hsane := hkept.sane (Function.update_self ..)
            have howns : Handle.Owns h.queue.channel.id (h.act op b.rig.card).1 :=
              ⟨hid, hsane.coherent.bound_iff.mpr hopen⟩
            exact Bool.false_ne_true (hp.symm.trans
              ((hkept.bound_iff _).mpr ⟨name, _, Function.update_self .., howns⟩))
          exact hclosed ▸ hself
        · dsimp only
          rw [hother p hpid]
          exact hb.idle_mem ((hframe p hpid).2.symm.trans hp)

theorem port {α : Type} (hb : b.Lawful spec) {p : QueueId} {F : PacketRing → α × PacketRing}
    (hkept : Rig.Kept { b.rig with card := (b.rig.card.withRing p F).2 }) :
    Lawful spec ⟨{ b.rig with card := (b.rig.card.withRing p F).2 }, b.devices⟩ := by
  have hj := b.rig.card.journal_withRing p F
  have hqueue : ∀ q, (b.rig.card.withRing p F).2.queueJournal q = b.rig.card.queueJournal q :=
    fun q => congrArg (List.filter _) hj
  refine ⟨hkept, (b.rig.card.spec_withRing p F).trans hb.spec_eq, hb.id_eq, ?_, ?_,
    fun {_ _ q} hn ho => ?_, fun {q} hq => ?_⟩
  · simpa using hb.devices_card
  · have hdevice : (b.rig.card.withRing p F).2.deviceJournal = b.rig.card.deviceJournal :=
      congrArg (List.filter _) hj
    rw [hdevice]
    simpa using hb.device_mem
  · rw [hqueue]
    exact hb.owned_mem hn ho
  · rw [hqueue]
    exact hb.idle_mem ((b.rig.card.isBound_withRing p q F).symm.trans hq)

theorem step (hb : b.Lawful spec) (op : BenchOp) : (Bench.step op b).Lawful spec := by
  cases op with
  | openDevice device identifier => exact hb.openDevice device identifier
  | dropDevice device => exact hb.dropDevice device
  | openQueue device name q => exact hb.openQueue device name q
  | onQueue name op => exact hb.onQueue name op
  | push index data header flags => exact hb.port (hb.kept.step (.push index data header flags))
  | pop index => exact hb.port (hb.kept.step (.pop index))
  | drain index => exact hb.port (hb.kept.step (.drain index))

theorem run (hb : b.Lawful spec) (ops : List BenchOp) : (Bench.run ops b).Lawful spec := by
  induction ops generalizing b with
  | nil => exact hb
  | cons op ops ih => exact ih (hb.step op)

theorem prefix_queueLives (hb : b.Lawful spec) (q : QueueId) :
    ∃ w ∈ queueLives q, b.rig.card.queueJournal q <+: w := by
  cases hbound : b.rig.card.isBound q with
  | false => exact prefix_mem_queueLives (hb.idle_mem hbound)
  | true =>
    obtain ⟨name, h, hn, ho⟩ := (hb.kept.bound_iff q).mp hbound
    exact prefix_mem_queueLives (hb.owned_mem hn ho)

theorem unclosed_unique (hb : b.Lawful spec) {n n' : Nat} {h h' : Handle}
    (hn : b.rig.handles n = some h) (hn' : b.rig.handles n' = some h')
    (hid : h.queue.id = h'.queue.id) (hs : h.queue.state ≠ .closed)
    (hs' : h'.queue.state ≠ .closed) : n = n' := by
  have hsame : h'.queue.channel.id = h.queue.channel.id :=
    ((hb.id_eq hn').symm.trans hid.symm).trans (hb.id_eq hn)
  exact hb.kept.unique hn hn' ⟨rfl, (hb.kept.sane hn).coherent.bound_iff.mpr hs⟩
    ⟨hsame, (hb.kept.sane hn').coherent.bound_iff.mpr hs'⟩

theorem opens_iff (hb : b.Lawful spec) {device name : Nat} (q : QueueId)
    (hd : device ∈ b.devices) (hn : b.rig.handles name = none) :
    ((b.step (.openQueue device name q)).rig.handles name).isSome ↔
      q.index < spec.queueCount q.direction ∧ q ∉ spec.refusesOpen ∧
        ∀ n h, b.rig.handles n = some h → h.queue.id = q → h.queue.state = .closed := by
  rw [← hb.isBound_eq_false_iff, ← hb.spec_eq, ← Card.bindRefusal_eq_none_iff, Bench.step,
    if_pos hd, Rig.step, hn, Queue.openOn, Card.bindChannel]
  cases hr : b.rig.card.bindRefusal q with
  | none => exact ⟨fun _ => rfl, fun _ => Option.isSome_of_eq_some (Function.update_self ..)⟩
  | some reason =>
    constructor
    · intro hsome
      change (b.rig.handles name).isSome at hsome
      rw [hn] at hsome
      cases hsome
    · intro hnone
      cases hnone

theorem refusal?_start (hb : b.Lawful spec) {name : Nat} {q : Queue}
    (hn : b.rig.handles name = some ⟨q, none⟩) :
    (b.refusal? (.onQueue name .start)).isSome ↔
      (q.state ≠ .opened ∧ q.state ≠ .stopped) ∨ q.id ∈ spec.refusesStart := by
  have hid : q.id = q.channel.id := hb.id_eq hn
  rw [hid, ← hb.spec_eq, ← Handle.refusal?_start, refusal?, hn, Option.bind_some, Option.isSome_map]

theorem refusal?_acquire (hb : b.Lawful spec) {name : Nat} {q : Queue}
    (hn : b.rig.handles name = some ⟨q, none⟩) (max : Nat) :
    (b.refusal? (.onQueue name (.acquire max))).isSome ↔ q.state ≠ .started := by
  rw [← Handle.refusal?_acquire (hb.kept.sane hn) max, refusal?, hn, Option.bind_some,
    Option.isSome_map]

theorem step_of_refused (hb : b.Lawful spec) {op : BenchOp} {e : Refusal}
    (hr : b.refusal? op = some e) : b.step op = b := by
  cases op with
  | openDevice device identifier =>
    rw [refusal?] at hr
    rw [Bench.step]
    split at hr
    · cases hr
    · rfl
  | openQueue device name q =>
    rw [refusal?] at hr
    rw [Bench.step, Rig.step]
    split at hr
    · cases hr
    · next he =>
      rw [he]
      cases b.rig.handles name <;> exact ite_self b
  | onQueue name op =>
    rw [refusal?] at hr
    obtain ⟨h, hn, hr⟩ := Option.bind_eq_some_iff.mp hr
    obtain ⟨e, he, -⟩ := Option.map_eq_some_iff.mp hr
    rw [Bench.step, Rig.step, hn]
    dsimp only
    rw [Handle.act_of_refused (hb.kept.sane hn) he, ← hn, Function.update_eq_self]
  | dropDevice | push | pop | drain => cases hr

end Lawful

/-- The journal tells of every queue, and of the device, the beginning of a row of whole lives.
Calls that come out of turn are refused, and what is refused changes nothing at all. -/
theorem run_lawful (hcard : Card.create spec = .ok card) (ops : List BenchOp) :
    ∃ b, run ops (ofCard card) = b ∧
      (∀ q, ∃ w ∈ queueLives q, b.rig.card.queueJournal q <+: w) ∧
      (∃ w ∈ deviceLives, b.rig.card.deviceJournal <+: w) ∧
      b.devices.card ≤ 1 ∧
      (∀ n n' h h', b.rig.handles n = some h → b.rig.handles n' = some h' →
        h.queue.id = h'.queue.id → h.queue.state ≠ .closed → h'.queue.state ≠ .closed → n = n') ∧
      (∀ device name q, device ∈ b.devices → b.rig.handles name = none →
        (((b.step (.openQueue device name q)).rig.handles name).isSome ↔
          q.index < spec.queueCount q.direction ∧ q ∉ spec.refusesOpen ∧
            ∀ n h, b.rig.handles n = some h → h.queue.id = q → h.queue.state = .closed)) ∧
      (∀ name q, b.rig.handles name = some ⟨q, none⟩ →
        ((b.refusal? (.onQueue name .start)).isSome ↔
          (q.state ≠ .opened ∧ q.state ≠ .stopped) ∨ q.id ∈ spec.refusesStart) ∧
        ∀ max, (b.refusal? (.onQueue name (.acquire max))).isSome ↔ q.state ≠ .started) ∧
      ∀ op e, b.refusal? op = some e → b.step op = b := by
  have hb := (lawful_ofCard hcard).run ops
  refine ⟨_, rfl, fun q => ?_, prefix_mem_deviceLives hb.device_mem, ?_, ?_,
    fun device name q hd hn => hb.opens_iff q hd hn, fun name q hn => ⟨?_, fun max => ?_⟩,
    fun op e hr => hb.step_of_refused hr⟩
  · exact hb.prefix_queueLives q
  · rw [hb.devices_card]
    split <;> decide
  · exact fun n n' h h' => hb.unclosed_unique
  · exact hb.refusal?_start hn
  · exact hb.refusal?_acquire hn max

def outlived : List BenchOp :=
  [.openDevice 0 "0", .openDevice 1 "0", .openQueue 0 0 ⟨.rx, 0⟩, .onQueue 0 .start,
    .openQueue 0 1 ⟨.rx, 0⟩, .dropDevice 0, .openDevice 1 "0", .onQueue 0 .stop, .onQueue 0 .start,
    .openQueue 1 2 ⟨.tx, 0⟩, .onQueue 2 .start, .onQueue 0 .close, .openQueue 1 1 ⟨.rx, 0⟩]

theorem outlived_lawful :
    ∃ card, Card.create { rxQueues := 1, txQueues := 1, ringCapacity := 1, slotSize := 1
                          refusesStart := [⟨.tx, 0⟩] } = .ok card ∧
      (run outlived (ofCard card)).rig.card.journal =
        [.deviceOpened, .queueOpened ⟨.rx, 0⟩, .queueStarted ⟨.rx, 0⟩, .deviceClosed, .deviceOpened,
          .queueStopped ⟨.rx, 0⟩, .queueStarted ⟨.rx, 0⟩, .queueOpened ⟨.tx, 0⟩,
          .queueStopped ⟨.rx, 0⟩, .queueClosed ⟨.rx, 0⟩, .queueOpened ⟨.rx, 0⟩] ∧
      (∃ w ∈ queueLives ⟨.rx, 0⟩,
        (run outlived (ofCard card)).rig.card.queueJournal ⟨.rx, 0⟩ <+: w) ∧
      (run outlived (ofCard card)).devices.card ≤ 1 ∧
      ((run outlived (ofCard card)).refusal? (.onQueue 2 .start)).isSome := by
  have hcard : Card.create { rxQueues := 1, txQueues := 1, ringCapacity := 1, slotSize := 1
                             refusesStart := [⟨.tx, 0⟩] } = .ok _ := rfl
  obtain ⟨b, hb, hqueue, -, hdevices, -, -, hrefused, -⟩ := run_lawful hcard outlived
  subst hb
  refine ⟨_, hcard, by decide +kernel, hqueue ⟨.rx, 0⟩, hdevices, ?_⟩
  exact (hrefused 2 { id := ⟨.tx, 0⟩, channel := { id := ⟨.tx, 0⟩ } } rfl).1.mpr (.inr (by decide))

end Bench

end DmaBurst
