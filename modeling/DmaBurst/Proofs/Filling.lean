import DmaBurst.Fault
import DmaBurst.Proofs.Slot

namespace DmaBurst

def Bytes.slice (len : Nat) (area : Bytes) : Except Fault Bytes :=
  if len ≤ area.length then .ok (area.take len)
  else .error (.collaborator
    s!"range end index {len} out of range for slice of length {area.length}")

theorem Bytes.slice_of_le {len : Nat} {area : Bytes} (h : len ≤ area.length) :
    area.slice len = .ok (area.take len) :=
  if_pos h

namespace Slot

variable {dataSize headerSize : Nat} {s : Slot}

def sliced (s : Slot) : Except Fault Packet := do
  let data ← s.data.slice s.dataLen
  let header ← s.header.slice s.headerLen
  return ⟨data, header, s.flags⟩

theorem Fits.sliced (h : s.Fits dataSize headerSize) : s.sliced = .ok s.packet := by
  have hdata : s.data.slice s.dataLen = .ok s.payload :=
    Bytes.slice_of_le (h.data_length ▸ h.dataLen_le)
  have hheader : s.header.slice s.headerLen = .ok s.metadata :=
    Bytes.slice_of_le (h.header_length ▸ h.headerLen_le)
  rw [Slot.sliced, hdata, hheader]
  rfl

theorem Fits.length_payload (h : s.Fits dataSize headerSize) : s.payload.length = s.dataLen := by
  rw [payload, List.length_take, h.data_length, Nat.min_eq_left h.dataLen_le]

theorem copyData_of_le {bytes : Bytes} (h : bytes.length ≤ s.data.length) :
    s.copyData bytes = { s with data := bytes ++ s.data.drop bytes.length } := by
  rw [copyData, Bytes.overlay_eq, List.take_of_length_le h]

theorem copyHeader_of_le {bytes : Bytes} (h : bytes.length ≤ s.header.length) :
    s.copyHeader bytes = { s with header := bytes ++ s.header.drop bytes.length } := by
  rw [copyHeader, Bytes.overlay_eq, List.take_of_length_le h]

end Slot

/-- Filling a slot. There is a slot also when a step is refused: the one that this step found. -/
abbrev Filling := EStateM TooLarge Slot

namespace Filling

def setDataLen (len : Nat) : Filling Unit := do
  let s ← get
  if s.data.length < len then
    throw ⟨len, s.data.length⟩
  set { s with dataLen := len }

/-- The length comes first, so bytes that do not fit are refused before any is copied. -/
def write (bytes : Bytes) : Filling Unit := do
  setDataLen bytes.length
  modify (·.copyData bytes)

def writeHeader (bytes : Bytes) : Filling Unit := do
  let s ← get
  if s.header.length < bytes.length then
    throw ⟨bytes.length, s.header.length⟩
  modify (·.copyHeader bytes)
  modify ({ · with headerLen := bytes.length })

/-- All or nothing: what a change makes of a slot, or the slot as it was. -/
def settle (s : Slot) : Except TooLarge Slot → EStateM.Result TooLarge Slot Unit
  | .ok s' => .ok () s'
  | .error e => .error e s

theorem run_setDataLen (len : Nat) (s : Slot) :
    (setDataLen len).run s = settle s (s.setDataLen len) := by
  rw [Slot.setDataLen]
  by_cases h : len ≤ s.data.length
  · simp [setDataLen, settle, h, Nat.not_lt.mpr h]
  · simp [setDataLen, settle, h, Nat.lt_of_not_le h]

theorem run_write (bytes : Bytes) (s : Slot) :
    (write bytes).run s = settle s (s.write bytes) := by
  rw [write, EStateM.run_bind, run_setDataLen, Slot.write]
  cases s.setDataLen bytes.length <;> rfl

theorem run_writeHeader (bytes : Bytes) (s : Slot) :
    (writeHeader bytes).run s = settle s (s.writeHeader bytes) := by
  rw [Slot.writeHeader]
  by_cases h : bytes.length ≤ s.header.length
  · simp [writeHeader, settle, h, Nat.not_lt.mpr h]
  · simp [writeHeader, settle, h, Nat.lt_of_not_le h]

end Filling

namespace SlotEdit

def inPlace : SlotEdit → Filling Unit
  | .data change => modify fun s => s.copyData (change s.data)
  | .header change => modify fun s => s.copyHeader (change s.header)
  | .clampDataLen len => modify (·.clampDataLen len)
  | .clampHeaderLen len => modify (·.clampHeaderLen len)
  | .setFlags flags => modify (·.setFlags flags)
  | .setDataLen len => Filling.setDataLen len
  | .write bytes => Filling.write bytes
  | .writeHeader bytes => Filling.writeHeader bytes

def attempt : SlotEdit → Slot → Except TooLarge Slot
  | .setDataLen len, s => s.setDataLen len
  | .write bytes, s => s.write bytes
  | .writeHeader bytes, s => s.writeHeader bytes
  | e, s => .ok (e.apply s)

theorem apply_eq (e : SlotEdit) (s : Slot) : e.apply s = (e.attempt s).toOption.getD s := by
  cases e <;> rfl

theorem run_inPlace (e : SlotEdit) (s : Slot) :
    e.inPlace.run s = Filling.settle s (e.attempt s) := by
  cases e with
  | setDataLen len => exact Filling.run_setDataLen len s
  | write bytes => exact Filling.run_write bytes s
  | writeHeader bytes => exact Filling.run_writeHeader bytes s
  | data | header | clampDataLen | clampHeaderLen | setFlags => rfl

end SlotEdit

namespace Filling

/-- What the changes do to a slot that it may refuse. Each is made just when what it is given fits
the area, and otherwise the slot stays whole as it was. -/
structure Exact (s : Slot) : Prop where
  edit : ∀ e : SlotEdit, e.inPlace.run s = settle s (e.attempt s) ∧
    e.apply s = (e.attempt s).toOption.getD s
  setDataLen : ∀ len, (setDataLen len).run s =
    if len ≤ s.data.length then .ok () { s with dataLen := len }
    else .error ⟨len, s.data.length⟩ s
  write : ∀ bytes : Bytes, (write bytes).run s =
    if bytes.length ≤ s.data.length then
      .ok () { s with data := bytes ++ s.data.drop bytes.length, dataLen := bytes.length }
    else .error ⟨bytes.length, s.data.length⟩ s
  writeHeader : ∀ bytes : Bytes, (writeHeader bytes).run s =
    if bytes.length ≤ s.header.length then
      .ok () { s with header := bytes ++ s.header.drop bytes.length, headerLen := bytes.length }
    else .error ⟨bytes.length, s.header.length⟩ s
  written : ∀ {bytes : Bytes} {s'}, (Filling.write bytes).run s = .ok () s' →
    s'.data.slice s'.dataLen = .ok bytes
  writtenHeader : ∀ {bytes : Bytes} {s'}, (Filling.writeHeader bytes).run s = .ok () s' →
    s'.header.slice s'.headerLen = .ok bytes

theorem slice_append (bytes rest : Bytes) :
    Bytes.slice bytes.length (bytes ++ rest) = .ok bytes := by
  rw [Bytes.slice_of_le (by simp), List.take_left]

theorem exact (s : Slot) : Exact s := by
  have hwrite : ∀ bytes : Bytes, (write bytes).run s =
      if bytes.length ≤ s.data.length then
        .ok () { s with data := bytes ++ s.data.drop bytes.length, dataLen := bytes.length }
      else .error ⟨bytes.length, s.data.length⟩ s := by
    intro bytes
    rw [run_write, Slot.write, Slot.setDataLen]
    split
    · next h =>
      exact congrArg (EStateM.Result.ok ()) (Slot.copyData_of_le (s := { s with dataLen := _ }) h)
    · rfl
  have hheader : ∀ bytes : Bytes, (writeHeader bytes).run s =
      if bytes.length ≤ s.header.length then
        .ok () { s with header := bytes ++ s.header.drop bytes.length, headerLen := bytes.length }
      else .error ⟨bytes.length, s.header.length⟩ s := by
    intro bytes
    rw [run_writeHeader, Slot.writeHeader]
    split
    · next h =>
      rw [Slot.copyHeader_of_le h]
      rfl
    · rfl
  refine ⟨fun e => ⟨e.run_inPlace s, e.apply_eq s⟩, fun len => ?_, hwrite, hheader, ?_, ?_⟩
  · rw [run_setDataLen, Slot.setDataLen]
    split <;> rfl
  · intro bytes s' h
    rw [hwrite] at h
    split at h
    · cases h
      exact slice_append _ _
    · cases h
  · intro bytes s' h
    rw [hheader] at h
    split at h
    · cases h
      exact slice_append _ _
    · cases h

end Filling

end DmaBurst
