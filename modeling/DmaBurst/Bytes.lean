namespace DmaBurst

abbrev Bytes := List UInt8

namespace Bytes

/-- Lays `new` over the front of `old`; the length stays that of `old`. -/
def overlay (new old : Bytes) : Bytes :=
  if new.length = old.length then new
  else if new.length < old.length then new ++ old.drop new.length
  else new.take old.length

theorem overlay_eq (new old : Bytes) :
    overlay new old = new.take old.length ++ old.drop new.length := by
  unfold overlay
  split
  · next h => rw [← h, List.take_length, h, List.drop_length, List.append_nil]
  · next h =>
    split
    · next h => rw [List.take_of_length_le (by omega)]
    · next h => rw [List.drop_of_length_le (by omega), List.append_nil]

theorem length_overlay (new old : Bytes) : (overlay new old).length = old.length := by
  simp only [overlay_eq, List.length_append, List.length_take, List.length_drop]
  omega

def ramp (start step len : Nat) : Bytes :=
  (List.range len).map fun i => UInt8.ofNat (start + i * step)

def littleEndian (n : Nat) : Bytes :=
  (List.range 8).map fun i => UInt8.ofNat (n >>> (8 * i))

end Bytes

end DmaBurst
