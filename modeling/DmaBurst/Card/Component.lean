import DmaBurst.Card.Basic

namespace DmaBurst

structure Component where
  offset : Nat
  position : Nat
  deriving DecidableEq, Repr

namespace Component

def base : Nat := 0x8000

def stride : Nat := 0x100

def offsetOf (position : Nat) : Nat :=
  base + position * stride

def positionOf? (offset : Nat) : Option Nat :=
  if base ≤ offset ∧ (offset - base) % stride = 0 then some ((offset - base) / stride) else none

end Component

namespace Card

def componentsLike (compatible : String) (card : Card) : List Nat :=
  (card.spec.components.zipIdx.filter (·.1 == compatible)).map (·.2)

def findComponent (compatible : String) (index : Nat) (card : Card) : Except DeviceError Nat :=
  match (card.componentsLike compatible)[index]? with
  | some position => .ok (Component.offsetOf position)
  | none => .error (.notFound compatible index)

def openComponent (offset : Nat) (card : Card) : Except DeviceError (Component × Card) :=
  match (Component.positionOf? offset).filter (· < card.registers.size) with
  | some position => .ok (⟨offset, position⟩, card.record (.componentOpened offset))
  | none => .error (.unavailable (.component offset) .noComponent)

def closeComponent (c : Component) (card : Card) : Card :=
  card.record (.componentClosed c.offset)

/-- Registers are four bytes wide and addressed by byte. -/
def register (position : Nat) (addr : UInt32) (card : Card) : Option UInt32 :=
  card.registers[position]?.bind (·[addr.toNat / 4]?)

def read (c : Component) (addr : UInt32) (card : Card) : UInt32 :=
  (card.register c.position addr).getD 0

/-- A write past the register file changes nothing, but is journaled. -/
def write (c : Component) (addr value : UInt32) (card : Card) : Card :=
  { card with
    registers := card.registers.modify c.position (·.setIfInBounds (addr.toNat / 4) value)
  }.record (.registerWrite c.offset addr value)

end Card

end DmaBurst
