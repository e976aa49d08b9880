import DmaBurst.Proofs.Component.Lookup
import DmaBurst.Proofs.Delivery.Handle

namespace DmaBurst

def Event.ofRegister : Event → Bool
  | .registerWrite .. => true
  | _ => false

namespace Card

variable {α : Type} {card card' card'' : Card} {c : Component} {addr value : UInt32}

def registerJournal (card : Card) : List Event :=
  card.journal.filter Event.ofRegister

theorem registerJournal_record (e : Event) (card : Card) :
    (card.record e).registerJournal =
      card.registerJournal ++ if e.ofRegister then [e] else [] := by
  rw [registerJournal, journal_record, List.filter_append]
  cases h : e.ofRegister <;> simp [registerJournal, h]

structure SameRegisters (card card' : Card) : Prop where
  spec_eq : card'.spec = card.spec
  registers_eq : card'.registers = card.registers
  journal_eq : card'.registerJournal = card.registerJournal

namespace SameRegisters

theorem refl (card : Card) : card.SameRegisters card :=
  ⟨rfl, rfl, rfl⟩

theorem trans (h : card.SameRegisters card') (h' : card'.SameRegisters card'') :
    card.SameRegisters card'' :=
  ⟨h'.spec_eq.trans h.spec_eq, h'.registers_eq.trans h.registers_eq,
    h'.journal_eq.trans h.journal_eq⟩

theorem record {e : Event} (he : e.ofRegister = false) (card : Card) :
    card.SameRegisters (card.record e) := by
  refine ⟨rfl, rfl, ?_⟩
  rw [registerJournal_record, he]
  exact List.append_nil _

theorem withLine (q : QueueId) (f : Line → α × Line) (card : Card) :
    card.SameRegisters (card.withLine q f).2 := by
  obtain ⟨hspec, hevents, hregisters, -⟩ := withLine_frame q f card
  refine ⟨hspec, hregisters, ?_⟩
  rw [registerJournal, journal, hevents]
  rfl

theorem withRing (q : QueueId) (f : PacketRing → α × PacketRing) (card : Card) :
    card.SameRegisters (card.withRing q f).2 :=
  withLine q _ card

theorem channelStop (c : Channel) (card : Card) : card.SameRegisters (c.stop card).2 := by
  rw [Channel.stop_eq]
  split
  · exact record rfl card
  · exact refl card

theorem channelClose (c : Channel) (card : Card) : card.SameRegisters (c.close card).2 := by
  have hstop := channelStop c card
  rw [Channel.close_eq]
  split
  · exact (hstop.trans (withLine _ _ _)).trans (record rfl _)
  · exact hstop

theorem queueStop (q : Queue) (card : Card) : card.SameRegisters (q.stop card).2 := by
  rw [Queue.stop_eq]
  split
  · exact channelStop q.channel card
  · exact refl card

theorem queueClose (q : Queue) (card : Card) : card.SameRegisters (q.close card).2 := by
  rw [Queue.close_eq]
  split
  · exact refl card
  · exact (queueStop q card).trans (channelClose _ _)

theorem act (op : HandleOp) (h : Handle) (card : Card) :
    card.SameRegisters (h.act op card).2 := by
  obtain ⟨q, _ | len⟩ := h
  · cases op with
    | start =>
      rw [Handle.act]
      split
      · next hs =>
        obtain ⟨-, -, rfl⟩ := Queue.start_eq hs
        exact record rfl card
      · exact refl card
    | stop => exact queueStop q card
    | close => exact queueClose q card
    | acquire max => exact withRing q.channel.id (Handle.acquireOn max q) card
    | edit | release | commit | abandon => exact refl card
  · cases op with
    | edit offset change =>
      rw [Handle.act]
      split
      · exact withRing q.channel.id _ card
      · exact refl card
    | release => exact withRing q.channel.id (fun r => (q.release len r).2) card
    | abandon => exact withRing q.channel.id (fun r => (q.abandon len r).2) card
    | commit count =>
      rw [Handle.act]
      split
      · exact withRing q.channel.id (fun r => (q.commit len count r).2) card
      · exact refl card
    | start | stop | close | acquire => exact refl card

theorem rigStep (op : RigOp) (rig : Rig) : rig.card.SameRegisters (rig.step op).card := by
  cases op with
  | openDevice identifier =>
    rw [Rig.step]
    cases h : rig.card.openDevice identifier with
    | error e => exact refl rig.card
    | ok card =>
      obtain ⟨-, -, rfl⟩ := openDevice_eq h
      exact ⟨rfl, rfl, (record (e := .deviceOpened) rfl rig.card).journal_eq⟩
  | closeDevice => exact ⟨rfl, rfl, (record (e := .deviceClosed) rfl rig.card).journal_eq⟩
  | openQueue name q =>
    rw [Rig.step]
    split
    · next ho =>
      obtain ⟨-, -, rfl⟩ := Queue.openOn_eq ho
      exact (withLine q _ rig.card).trans (record rfl _)
    · exact refl rig.card
  | onQueue name op =>
    rw [Rig.step]
    cases rig.handles name with
    | none => exact refl rig.card
    | some h => exact act op h rig.card
  | push index data header flags =>
    exact withRing ⟨.rx, index⟩ (·.push data header flags) rig.card
  | pop index => exact withRing ⟨.tx, index⟩ (·.pop) rig.card
  | drain index => exact withRing ⟨.tx, index⟩ (·.drain) rig.card

end SameRegisters

theorem register_write (c : Component) (addr value : UInt32) (card : Card) (position : Nat)
    (a : UInt32) :
    (card.write c addr value).register position a =
      (card.register position a).map fun old =>
        if c.position = position ∧ addr.toNat / 4 = a.toNat / 4 then value else old := by
  have hregisters : (card.write c addr value).registers =
      card.registers.modify c.position (·.setIfInBounds (addr.toNat / 4) value) := rfl
  rw [register, register, hregisters, Array.getElem?_modify]
  by_cases hp : c.position = position
  · rw [if_pos hp]
    cases card.registers[position]? with
    | none => rfl
    | some file =>
      rw [Option.map_some, Option.bind_some, Option.bind_some, Array.getElem?_setIfInBounds]
      by_cases ha : addr.toNat / 4 = a.toNat / 4
      · rw [ha]
        cases h : file[a.toNat / 4]? with
        | none => simp [Array.getElem?_eq_none_iff.mp h]
        | some old => simp [(Array.getElem?_eq_some_iff.mp h).1, hp]
      · simp [ha]
  · simp [hp]

theorem write_of_register_none (h : card.register c.position addr = none) :
    card.write c addr value = card.record (.registerWrite c.offset addr value) := by
  have hsame : card.registers.modify c.position (·.setIfInBounds (addr.toNat / 4) value) =
      card.registers := by
    refine Array.ext_getElem? fun i => ?_
    rw [Array.getElem?_modify]
    split
    · next hi =>
      subst hi
      rw [register] at h
      cases hf : card.registers[c.position]? with
      | none => rfl
      | some file =>
        rw [hf, Option.bind_some, Array.getElem?_eq_none_iff] at h
        rw [Option.map_some, Array.setIfInBounds_eq_of_size_le h]
    · rfl
  rw [write, hsame]

end Card

def Component.LiesOn (spec : CardSpec) (c : Component) : Prop :=
  c.position < spec.components.length ∧ c.offset = offsetOf c.position

structure Board where
  rig : Rig
  components : Nat → Option Component := fun _ => none

inductive BoardOp where
  | onRig (op : RigOp)
  | openComponent (name offset : Nat)
  | write (name : Nat) (addr value : UInt32)
  | dropComponent (name : Nat)

structure RegisterWrite where
  position : Nat
  addr : UInt32
  value : UInt32

namespace RegisterWrite

def event (w : RegisterWrite) : Event :=
  .registerWrite (Component.offsetOf w.position) w.addr w.value

/-- What was written last to a register; registers are four bytes wide. -/
def last (position : Nat) (addr : UInt32) (writes : List RegisterWrite) : UInt32 :=
  ((writes.filter fun w => w.position = position ∧ w.addr.toNat / 4 = addr.toNat / 4).getLast?.map
    value).getD 0

theorem last_concat (position : Nat) (addr : UInt32) (writes : List RegisterWrite)
    (w : RegisterWrite) :
    last position addr (writes ++ [w]) =
      if w.position = position ∧ w.addr.toNat / 4 = addr.toNat / 4 then w.value
      else last position addr writes := by
  rw [last, List.filter_append, List.filter_singleton]
  by_cases h : w.position = position ∧ w.addr.toNat / 4 = addr.toNat / 4
  · simp [h]
  · simp [h, last]

end RegisterWrite

namespace Board

def ofCard (card : Card) : Board :=
  { rig := .ofCard card }

abbrev card (b : Board) : Card :=
  b.rig.card

def step : BoardOp → Board → Board
  | .onRig op, b => { b with rig := b.rig.step op }
  | .openComponent name offset, b =>
    match b.components name, b.card.openComponent offset with
    | none, .ok (c, card) =>
      { rig := { b.rig with card }, components := Function.update b.components name (some c) }
    | _, _ => b
  | .write name addr value, b =>
    match b.components name with
    | some c => { b with rig := { b.rig with card := b.card.write c addr value } }
    | none => b
  | .dropComponent name, b =>
    match b.components name with
    | some c =>
      { rig := { b.rig with card := b.card.closeComponent c }
        components := Function.update b.components name none }
    | none => b

def writes : BoardOp → Board → List RegisterWrite
  | .write name addr value, b =>
    match b.components name with
    | some c => [⟨c.position, addr, value⟩]
    | none => []
  | .onRig _, _ | .openComponent .., _ | .dropComponent _, _ => []

def run : List BoardOp → Board → Board
  | [], b => b
  | op :: ops, b => run ops (step op b)

def written : List BoardOp → Board → List RegisterWrite
  | [], _ => []
  | op :: ops, b => writes op b ++ written ops (step op b)

def Placed (spec : CardSpec) (held : Nat → Option Component) : Prop :=
  ∀ name c, held name = some c → c.LiesOn spec

/-- The registers hold what was written last, and the journal tells of every write. -/
structure Holds (spec : CardSpec) (ws : List RegisterWrite) (b : Board) : Prop where
  spec_eq : b.card.spec = spec
  size_eq : b.card.registers.size = spec.components.length
  register_eq : ∀ position addr, b.card.register position addr =
    if position < spec.components.length ∧ addr.toNat / 4 < spec.registersPerComponent then
      some (RegisterWrite.last position addr ws)
    else none
  placed : Placed spec b.components
  journal_eq : b.card.registerJournal = ws.map RegisterWrite.event

variable {spec : CardSpec} {card : Card} {ws : List RegisterWrite} {b : Board}

theorem Placed.update {held : Nat → Option Component} (h : Placed spec held) (name : Nat)
    {component : Option Component} (hc : ∀ c, component = some c → c.LiesOn spec) :
    Placed spec (Function.update held name component) := by
  intro n c hn
  by_cases hname : n = name
  · rw [hname, Function.update_self] at hn
    exact hc c hn
  · rw [Function.update_of_ne hname] at hn
    exact h n c hn

theorem holds_ofCard (hcard : Card.create spec = .ok card) : (ofCard card).Holds spec [] := by
  obtain ⟨_, _, -, -, rfl⟩ := Card.create_eq hcard
  refine ⟨rfl, Array.size_replicate, fun position addr => ?_, (fun _ _ hn => by cases hn), rfl⟩
  simp only [ofCard, Rig.ofCard, Card.register, Array.getElem?_replicate]
  by_cases hp : position < spec.components.length
  · by_cases ha : addr.toNat / 4 < spec.registersPerComponent <;>
      simp [hp, ha, RegisterWrite.last]
  · simp [hp]

namespace Holds

theorem of_sameRegisters {b' : Board} (hb : b.Holds spec ws) (h : b.card.SameRegisters b'.card)
    (hplaced : Placed spec b'.components) : b'.Holds spec ws := by
  refine ⟨h.spec_eq.trans hb.spec_eq, ?_, fun position addr => ?_, hplaced,
    h.journal_eq.trans hb.journal_eq⟩
  · rw [h.registers_eq, hb.size_eq]
  · rw [Card.register, h.registers_eq]
    exact hb.register_eq position addr

theorem write (hb : b.Holds spec ws) {name : Nat} {c : Component} (hc : b.components name = some c)
    (addr value : UInt32) :
    (b.step (.write name addr value)).Holds spec (ws ++ [⟨c.position, addr, value⟩]) := by
  rw [step, hc]
  refine ⟨hb.spec_eq, Array.size_modify.trans hb.size_eq, fun position a => ?_, hb.placed, ?_⟩
  · refine (Card.register_write c addr value b.card position a).trans ?_
    rw [hb.register_eq, RegisterWrite.last_concat, apply_ite (Option.map _)]
    rfl
  · refine (Card.registerJournal_record _ _).trans ?_
    rw [List.map_append]
    refine congrArg₂ (· ++ ·) hb.journal_eq ?_
    simp [RegisterWrite.event, Event.ofRegister, (hb.placed name c hc).2]

theorem step (hb : b.Holds spec ws) (op : BoardOp) :
    (b.step op).Holds spec (ws ++ writes op b) := by
  cases op with
  | onRig op =>
    rw [writes, List.append_nil]
    exact hb.of_sameRegisters (.rigStep op b.rig) hb.placed
  | openComponent name offset =>
    rw [writes, List.append_nil, Board.step]
    split
    · next c card hname hopen =>
      obtain ⟨hoffset, hc, hlt, rfl⟩ := Card.openComponent_eq_ok hopen
      refine hb.of_sameRegisters (.record rfl b.card) (hb.placed.update name fun d hd => ?_)
      cases hd
      exact ⟨hb.size_eq ▸ hlt, hc.trans hoffset⟩
    · exact hb
  | write name addr value =>
    rw [writes]
    cases hc : b.components name with
    | some c => exact hb.write hc addr value
    | none =>
      rw [Board.step, hc, List.append_nil]
      exact hb
  | dropComponent name =>
    rw [writes, List.append_nil, Board.step]
    cases hc : b.components name with
    | none => exact hb
    | some c =>
      exact hb.of_sameRegisters (.record rfl b.card) (hb.placed.update name fun d hd => by cases hd)

theorem run (hb : b.Holds spec ws) (ops : List BoardOp) :
    (Board.run ops b).Holds spec (ws ++ written ops b) := by
  induction ops generalizing b ws with
  | nil =>
    rw [written, List.append_nil]
    exact hb
  | cons op ops ih =>
    rw [written, ← List.append_assoc]
    exact ih (hb.step op)

theorem read_eq (hb : b.Holds spec ws) {name : Nat} {c : Component}
    (hc : b.components name = some c) (addr : UInt32) :
    b.card.read c addr =
      if addr.toNat / 4 < spec.registersPerComponent then RegisterWrite.last c.position addr ws
      else 0 := by
  rw [Card.read, hb.register_eq]
  simp only [(hb.placed name c hc).1, true_and]
  split <;> rfl

end Holds

/-- Whatever is done through whichever handles, a register holds what was last written to it, by its
component. A write past the registers changes none, but the journal tells of it. -/
theorem registers_last_written (hcard : Card.create spec = .ok card) (ops : List BoardOp) :
    ∃ b ws, run ops (ofCard card) = b ∧ written ops (ofCard card) = ws ∧
      (∀ c k, (∃ offset, b.card.findComponent c k = .ok offset) ↔ k < spec.components.count c) ∧
      (∀ c k offset, b.card.findComponent c k = .ok offset →
        ∃ p, Denotes spec.components c k p ∧ b.card.openComponent offset =
          .ok (⟨offset, p⟩, b.card.record (.componentOpened offset))) ∧
      (∀ c k c' k' offset, b.card.findComponent c k = .ok offset →
        b.card.findComponent c' k' = .ok offset → c = c' ∧ k = k') ∧
      (∀ offset, (∃ opened, b.card.openComponent offset = .ok opened) ↔
        ∃ c k, b.card.findComponent c k = .ok offset) ∧
      (∀ position addr, b.card.register position addr =
        if position < spec.components.length ∧ addr.toNat / 4 < spec.registersPerComponent then
          some (RegisterWrite.last position addr ws)
        else none) ∧
      (∀ name c, b.components name = some c → ∀ addr,
        b.card.read c addr =
          if addr.toNat / 4 < spec.registersPerComponent then RegisterWrite.last c.position addr ws
          else 0) ∧
      (∀ name c, b.components name = some c → ∀ addr value,
        spec.registersPerComponent ≤ addr.toNat / 4 →
          b.card.write c addr value = b.card.record (.registerWrite c.offset addr value)) ∧
      b.card.registerJournal = ws.map RegisterWrite.event := by
  have hb := (holds_ofCard hcard).run ops
  rw [List.nil_append] at hb
  have hsize : (run ops (ofCard card)).card.registers.size =
      (run ops (ofCard card)).card.spec.components.length := by rw [hb.size_eq, hb.spec_eq]
  refine ⟨_, _, rfl, rfl, fun c k => ?_, fun c k offset h => ?_,
    fun _ _ _ _ _ => Card.findComponent_unique, fun _ => Card.exists_openComponent_iff hsize,
    hb.register_eq, fun _ _ => hb.read_eq, fun name c hc addr value hbeyond => ?_, hb.journal_eq⟩
  · rw [Card.exists_findComponent_iff, hb.spec_eq]
  · obtain ⟨p, rfl, hp⟩ := Card.findComponent_eq_ok_iff.mp h
    refine ⟨p, hb.spec_eq ▸ hp, Card.openComponent_offsetOf (hsize ▸ hp.lt_length)⟩
  · refine Card.write_of_register_none ?_
    rw [hb.register_eq, if_neg fun hn => absurd hn.2 (Nat.not_lt.mpr hbeyond)]

/-- Two components of one name. The second is held twice, and written to through both handles, also
past its two registers. -/
def sharedHandles : List BoardOp :=
  [.openComponent 0 0x8200, .openComponent 1 0x8200, .openComponent 2 0x8000, .write 0 4 7,
    .write 2 4 1, .write 1 5 9, .write 0 8 3, .dropComponent 0]

theorem sharedHandles_last_written :
    ∃ card, Card.create { rxQueues := 0, txQueues := 0, components := ["core", "dma", "core"]
                          registersPerComponent := 2 } = .ok card ∧
      (run sharedHandles (ofCard card)).card.findComponent "core" 1 = .ok 0x8200 ∧
      (∀ c k, (run sharedHandles (ofCard card)).card.findComponent c k = .ok 0x8200 →
        c = "core" ∧ k = 1) ∧
      (run sharedHandles (ofCard card)).card.read ⟨0x8200, 2⟩ 4 = 9 ∧
      (run sharedHandles (ofCard card)).card.register 1 4 = some 0 ∧
      (run sharedHandles (ofCard card)).card.registerJournal =
        [.registerWrite 0x8200 4 7, .registerWrite 0x8000 4 1, .registerWrite 0x8200 5 9,
          .registerWrite 0x8200 8 3] := by
  have hcard : Card.create { rxQueues := 0, txQueues := 0, components := ["core", "dma", "core"]
                             registersPerComponent := 2 } = .ok _ := rfl
  obtain ⟨b, ws, rfl, rfl, -, -, hunique, -, hregister, hread, -, hjournal⟩ :=
    registers_last_written hcard sharedHandles
  refine ⟨_, hcard, by decide, fun c k h => hunique c k "core" 1 _ h (by decide), ?_, ?_, ?_⟩
  · exact (hread 1 ⟨0x8200, 2⟩ rfl 4).trans rfl
  · exact (hregister 1 4).trans rfl
  · exact hjournal.trans rfl

end Board

end DmaBurst
