import DmaBurst.Slot

namespace DmaBurst

/-- One change to a slot by whoever fills it: bytes of an area through its buffer, a length that is
cut to the area, a length or bytes that are refused when they do not fit, or the flags. -/
inductive SlotEdit where
  | data (change : Bytes → Bytes)
  | header (change : Bytes → Bytes)
  | clampDataLen (len : Nat)
  | clampHeaderLen (len : Nat)
  | setFlags (flags : UInt16)
  | setDataLen (len : Nat)
  | write (bytes : Bytes)
  | writeHeader (bytes : Bytes)

namespace SlotEdit

def apply : SlotEdit → Slot → Slot
  | .data change, s => s.copyData (change s.data)
  | .header change, s => s.copyHeader (change s.header)
  | .clampDataLen len, s => s.clampDataLen len
  | .clampHeaderLen len, s => s.clampHeaderLen len
  | .setFlags flags, s => s.setFlags flags
  | .setDataLen len, s => (s.setDataLen len).toOption.getD s
  | .write bytes, s => (s.write bytes).toOption.getD s
  | .writeHeader bytes, s => (s.writeHeader bytes).toOption.getD s

end SlotEdit

namespace Slot

structure Fits (dataSize headerSize : Nat) (s : Slot) : Prop where
  data_length : s.data.length = dataSize
  header_length : s.header.length = headerSize
  dataLen_le : s.dataLen ≤ dataSize
  headerLen_le : s.headerLen ≤ headerSize

def IsCleared (s : Slot) : Prop :=
  s.dataLen = 0 ∧ s.headerLen = 0 ∧ s.flags = 0

variable {dataSize headerSize : Nat} {s : Slot}

theorem isCleared_clear (s : Slot) : s.clear.IsCleared :=
  ⟨rfl, rfl, rfl⟩

theorem fits_blank : (blank dataSize headerSize).Fits dataSize headerSize := by
  constructor <;> simp [blank]

theorem Fits.clear (h : s.Fits dataSize headerSize) : s.clear.Fits dataSize headerSize :=
  ⟨h.data_length, h.header_length, Nat.zero_le _, Nat.zero_le _⟩

theorem Fits.copyData (h : s.Fits dataSize headerSize) (bytes : Bytes) :
    (s.copyData bytes).Fits dataSize headerSize :=
  { h with data_length := (Bytes.length_overlay bytes s.data).trans h.data_length }

theorem Fits.copyHeader (h : s.Fits dataSize headerSize) (bytes : Bytes) :
    (s.copyHeader bytes).Fits dataSize headerSize :=
  { h with header_length := (Bytes.length_overlay bytes s.header).trans h.header_length }

theorem Fits.clampDataLen (h : s.Fits dataSize headerSize) (len : Nat) :
    (s.clampDataLen len).Fits dataSize headerSize :=
  { h with dataLen_le := h.data_length ▸ Nat.min_le_right _ _ }

theorem Fits.clampHeaderLen (h : s.Fits dataSize headerSize) (len : Nat) :
    (s.clampHeaderLen len).Fits dataSize headerSize :=
  { h with headerLen_le := h.header_length ▸ Nat.min_le_right _ _ }

theorem Fits.setFlags (h : s.Fits dataSize headerSize) (flags : UInt16) :
    (s.setFlags flags).Fits dataSize headerSize :=
  { h with }

theorem Fits.setDataLen (h : s.Fits dataSize headerSize) {len : Nat} {s' : Slot}
    (hs : s.setDataLen len = .ok s') : s'.Fits dataSize headerSize := by
  rw [Slot.setDataLen] at hs
  split at hs
  · next hl =>
    cases hs
    exact { h with dataLen_le := h.data_length ▸ hl }
  · cases hs

theorem Fits.write (h : s.Fits dataSize headerSize) {bytes : Bytes} {s' : Slot}
    (hs : s.write bytes = .ok s') : s'.Fits dataSize headerSize := by
  rw [Slot.write] at hs
  cases hl : s.setDataLen bytes.length with
  | error e => rw [hl] at hs; cases hs
  | ok t =>
    rw [hl] at hs
    cases hs
    exact (h.setDataLen hl).copyData bytes

theorem Fits.writeHeader (h : s.Fits dataSize headerSize) {bytes : Bytes} {s' : Slot}
    (hs : s.writeHeader bytes = .ok s') : s'.Fits dataSize headerSize := by
  rw [Slot.writeHeader] at hs
  split at hs
  · next hl =>
    cases hs
    exact { h.copyHeader bytes with headerLen_le := h.header_length ▸ hl }
  · cases hs

theorem Fits.load (h : s.Fits dataSize headerSize) (data header : Bytes) (flags : UInt16) :
    (s.load data header flags).Fits dataSize headerSize :=
  ((((h.copyData _).clampDataLen _).copyHeader _).clampHeaderLen _).setFlags _

theorem Fits.edit (h : s.Fits dataSize headerSize) (e : SlotEdit) :
    (e.apply s).Fits dataSize headerSize := by
  have hkeep : ∀ answer : Except TooLarge Slot,
      (∀ s', answer = .ok s' → s'.Fits dataSize headerSize) →
      (answer.toOption.getD s).Fits dataSize headerSize := by
    intro answer ha
    cases answer with
    | ok s' => exact ha s' rfl
    | error _ => exact h
  cases e with
  | data change => exact h.copyData _
  | header change => exact h.copyHeader _
  | clampDataLen len => exact h.clampDataLen len
  | clampHeaderLen len => exact h.clampHeaderLen len
  | setFlags flags => exact h.setFlags flags
  | setDataLen len => exact hkeep _ fun _ => h.setDataLen
  | write bytes => exact hkeep _ fun _ => h.write
  | writeHeader bytes => exact hkeep _ fun _ => h.writeHeader

theorem take_overlay_min (new old : Bytes) :
    (Bytes.overlay new old).take (min new.length old.length) = new.take old.length := by
  have hl : min new.length old.length = (new.take old.length).length := by
    rw [List.length_take, Nat.min_comm]
  rw [Bytes.overlay_eq, hl, List.take_left]

theorem packet_load (s : Slot) (data header : Bytes) (flags : UInt16) :
    (s.load data header flags).packet =
      ⟨data.take s.data.length, header.take s.header.length, flags⟩ := by
  simp only [load, packet, payload, metadata, copyData, clampDataLen, copyHeader, clampHeaderLen,
    setFlags, Bytes.length_overlay, take_overlay_min]

end Slot

end DmaBurst
