import DmaBurst.Proofs.Card.Lines
import DmaBurst.Proofs.Ring.Idle

namespace DmaBurst.Card

variable {α : Type} {card card' card'' : Card}

structure SameBuild (card card' : Card) : Prop where
  spec_eq : card'.spec = card.spec
  size_registers : card'.registers.size = card.registers.size
  isSome_ring? : ∀ q, (card'.ring? q).isSome = (card.ring? q).isSome

/-- The cards are of the same build, and the same is open and bound on both: all that a setup looks
at. -/
structure Alike (card card' : Card) : Prop extends SameBuild card card' where
  deviceOpen_eq : card'.deviceOpen = card.deviceOpen
  isBound_eq : ∀ q, card'.isBound q = card.isBound q

namespace SameBuild

theorem refl (card : Card) : card.SameBuild card :=
  ⟨rfl, rfl, fun _ => rfl⟩

theorem trans (h : card.SameBuild card') (h' : card'.SameBuild card'') : card.SameBuild card'' :=
  ⟨h'.spec_eq.trans h.spec_eq, h'.size_registers.trans h.size_registers,
    fun q => (h'.isSome_ring? q).trans (h.isSome_ring? q)⟩

theorem withLine (q : QueueId) (f : Line → α × Line) (card : Card) :
    card.SameBuild (card.withLine q f).2 := by
  obtain ⟨hspec, -, hregisters, -⟩ := withLine_frame q f card
  refine ⟨hspec, congrArg Array.size hregisters, fun p => ?_⟩
  rw [ring?, ring?, Option.isSome_map, Option.isSome_map, line?_withLine]
  split
  · exact Option.isSome_map
  · rfl

theorem setBound (q : QueueId) (bound : Bool) (card : Card) :
    card.SameBuild (card.setBound q bound) :=
  withLine q _ card

end SameBuild

namespace Alike

theorem refl (card : Card) : card.Alike card :=
  ⟨.refl card, rfl, fun _ => rfl⟩

theorem symm (h : card.Alike card') : card'.Alike card :=
  ⟨⟨h.spec_eq.symm, h.size_registers.symm, fun q => (h.isSome_ring? q).symm⟩, h.deviceOpen_eq.symm,
    fun q => (h.isBound_eq q).symm⟩

theorem trans (h : card.Alike card') (h' : card'.Alike card'') : card.Alike card'' :=
  ⟨h.toSameBuild.trans h'.toSameBuild, h'.deviceOpen_eq.trans h.deviceOpen_eq,
    fun q => (h'.isBound_eq q).trans (h.isBound_eq q)⟩

theorem record (e : Event) (card : Card) : card.Alike (card.record e) :=
  ⟨⟨rfl, rfl, fun q => congrArg _ (ring?_record e card q)⟩, rfl, isBound_record e card⟩

theorem withLine (q : QueueId) {f : Line → α × Line} (h : ∀ line, (f line).2.bound = line.bound)
    (card : Card) : card.Alike (card.withLine q f).2 := by
  refine ⟨.withLine q f card, (withLine_frame q f card).2.2.2, fun p => ?_⟩
  rw [isBound, isBound, line?_withLine]
  split
  · cases hl : card.line? p with
    | none => rfl
    | some line => exact h line
  · rfl

theorem withRing (q : QueueId) (f : PacketRing → α × PacketRing) (card : Card) :
    card.Alike (card.withRing q f).2 :=
  withLine q (fun _ => rfl) card

theorem setBound (h : card.Alike card') (q : QueueId) (bound : Bool) :
    (card.setBound q bound).Alike (card'.setBound q bound) := by
  have hsome : ∀ p, (card'.line? p).isSome = (card.line? p).isSome := by
    intro p
    rw [← Option.isSome_map (f := Line.ring), ← Option.isSome_map (f := Line.ring)]
    exact h.isSome_ring? p
  refine ⟨⟨?_, ?_, fun p => ?_⟩, ?_, fun p => ?_⟩
  · rw [spec_setBound, spec_setBound, h.spec_eq]
  · rw [(SameBuild.setBound q bound card').size_registers,
      (SameBuild.setBound q bound card).size_registers, h.size_registers]
  · rw [ring?_setBound, ring?_setBound, h.isSome_ring?]
  · rw [deviceOpen_setBound, deviceOpen_setBound, h.deviceOpen_eq]
  · rw [isBound_setBound, isBound_setBound, hsome, h.isBound_eq]

end Alike

def Idle (card : Card) : Prop :=
  ∀ q r, card.ring? q = some r → r.Idle

theorem Idle.of_rings (h : card.Idle) (hr : ∀ q, card'.ring? q = card.ring? q) : card'.Idle :=
  fun q r hq => h q r ((hr q).symm.trans hq)

theorem Idle.withRing (h : card.Idle) (q : QueueId) {f : PacketRing → α × PacketRing}
    (hf : ∀ r, r.Idle → (f r).2.Idle) : (card.withRing q f).2.Idle := by
  intro p r hr
  rw [ring?_withRing] at hr
  split at hr
  · obtain ⟨r', hr', rfl⟩ := Option.map_eq_some_iff.mp hr
    exact hf r' (h p r' hr')
  · exact h p r hr

/-- The driver has carried packets over the rings of one direction, and has left the other rings as
they were. -/
def Carries (direction : Direction) (card card' : Card) : Prop :=
  ∀ q r, card.ring? q = some r → ∃ r', card'.ring? q = some r' ∧
    if q.direction = direction then r.Carries direction r' else r' = r

namespace Carries

variable {direction : Direction}

theorem of_rings (direction : Direction) (h : ∀ q, card'.ring? q = card.ring? q) :
    card.Carries direction card' := by
  refine fun q r hr => ⟨r, (h q).trans hr, ?_⟩
  split
  · exact .refl direction r
  · rfl

theorem trans (h : card.Carries direction card') (h' : card'.Carries direction card'') :
    card.Carries direction card'' := by
  intro q r hr
  obtain ⟨r', hr', hc⟩ := h q r hr
  obtain ⟨r'', hr'', hc'⟩ := h' q r' hr'
  refine ⟨r'', hr'', ?_⟩
  split
  · next hd =>
    rw [if_pos hd] at hc hc'
    exact hc.trans hc'
  · next hd =>
    rw [if_neg hd] at hc hc'
    exact hc'.trans hc

theorem setRing {q : QueueId} {r r' : PacketRing} (hr : card.ring? q = some r)
    (hd : q.direction = direction) (hc : r.Carries direction r') :
    card.Carries direction (card.setRing q r') := by
  intro p s hs
  rw [ring?_setRing hr]
  by_cases hp : q = p
  · subst hp
    cases hr.symm.trans hs
    rw [if_pos rfl]
    refine ⟨r', rfl, ?_⟩
    rwa [if_pos hd]
  · rw [if_neg hp]
    exact of_rings direction (fun _ => rfl) p s hs

end Carries

end DmaBurst.Card
