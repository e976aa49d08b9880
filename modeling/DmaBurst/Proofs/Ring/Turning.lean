import DmaBurst.Proofs.Ring.Index

namespace DmaBurst.PacketRing

/-- An empty ring of `n + 1` blank slots whose indices have come to `i`. The writer has last seen
the reader at `seen`. -/
def level (n dataSize : Nat) (i seen : UInt64) : PacketRing where
  slots := Array.replicate (n + 1) (Slot.blank dataSize 0)
  head := i
  tail := i
  cachedTail := seen
  cachedHead := i
  reserved := 0
  exposed := 0
  slots_pos := by simp

theorem ofNat_succ (k : Nat) : UInt64.ofNat (k + 1) = .ofNat k + 1 :=
  UInt64.ofNat_add k 1

theorem ofNat_eq_succ_sub (k : Nat) : UInt64.ofNat k = .ofNat (k + 1) - 1 := by
  rw [ofNat_succ, UInt64.add_sub_cancel]

variable {n dataSize : Nat} {i seen : UInt64} {r : PacketRing}

theorem create_eq_level (n dataSize : Nat) :
    create (n + 1) dataSize 0 = .ok (level n dataSize 0 0) := by
  rw [create, dif_pos (Nat.succ_pos n)]
  rfl

theorem modifyAt_of_fixed {f : Slot → Slot} (h : ∀ s ∈ r.slots, f s = s) (base : UInt64)
    (offset : Nat) : r.modifyAt base offset f = r := by
  have hsame : r.slots.modify (r.position base offset) f = r.slots := by
    refine Array.ext_getElem? fun k => ?_
    rw [Array.getElem?_modify]
    split
    · cases hk : r.slots[k]? with
      | none => rfl
      | some s => exact congrArg some (h s (Array.mem_of_getElem? hk))
    · rfl
  rw [modifyAt]
  simp only [hsame]

theorem clearAhead_of_clear (h : ∀ s ∈ r.slots, s.clear = s) (count : Nat) :
    r.clearAhead count = r := by
  induction count with
  | zero => rfl
  | succ count ih => rw [clearAhead_succ, ih, modifyAt_of_fixed h]

theorem reserveSeeing_of_clear (h : ∀ s ∈ r.slots, s.clear = s) {max : Nat}
    (hm : max ≤ r.freeSeeing r.cachedTail) :
    r.reserveSeeing seen max = (max, { r with reserved := max }) := by
  rw [reserveSeeing, refreshTail, if_neg (Nat.not_lt.mpr hm)]
  dsimp only
  rw [Nat.min_eq_right hm, clearAhead_of_clear h]

theorem clear_of_mem_level {s : Slot} (hs : s ∈ (level n dataSize i seen).slots) : s.clear = s := by
  rw [Array.eq_of_mem_replicate hs]
  rfl

theorem slotAt_level (n dataSize : Nat) (i seen base : UInt64) (k : Nat) :
    (level n dataSize i seen).slotAt base k = .blank dataSize 0 := by
  simp [slotAt, level]

theorem refreshTail_level (h : seen = i ∨ seen = i - 1) :
    (level n dataSize i seen).refreshTail (n + 1) i = level n dataSize i i := by
  rcases h with rfl | rfl
  · exact ite_self _
  · have hone : i - (i - 1) = 1 := by grind
    rw [refreshTail, if_pos]
    · rfl
    · simp [freeSeeing, level, capacity, hone]

theorem reserve_level (h : seen = i ∨ seen = i - 1) :
    (level n dataSize i seen).reserve (n + 1) =
      (n + 1, { level n dataSize i i with reserved := n + 1 }) := by
  have hfree : (level n dataSize i i).freeSeeing i = n + 1 := by
    simp [freeSeeing, level, capacity]
  have hlook : (level n dataSize i seen).refreshTail (n + 1) (level n dataSize i seen).tail =
      level n dataSize i i := refreshTail_level h
  rw [reserve, reserveSeeing, hlook]
  dsimp only
  rw [show (level n dataSize i i).cachedTail = i from rfl, hfree, Nat.min_self,
    clearAhead_of_clear fun _ => clear_of_mem_level]
  rfl

theorem reserve_ahead (dataSize : Nat) (h : seen = i ∨ seen = i - 1) {m max : Nat}
    (hm : m + max ≤ n) (look : UInt64) :
    reserveSeeing look max { level n dataSize i seen with head := i + .ofNat m } =
      (max, { level n dataSize i seen with head := i + .ofNat m, reserved := max }) := by
  have hclear : ∀ s ∈ (level n dataSize i seen).slots, s.clear = s := fun _ => clear_of_mem_level
  refine reserveSeeing_of_clear (r := { level n dataSize i seen with head := i + .ofNat m })
    hclear ?_
  have hlag : (i + .ofNat m - seen).toNat ≤ m + 1 := by
    rcases h with rfl | rfl
    · rw [show seen + .ofNat m - seen = .ofNat m by grind, UInt64.toNat_ofNat']
      omega
    · rw [show i + .ofNat m - (i - 1) = .ofNat (m + 1) by rw [UInt64.ofNat_add]; grind,
        UInt64.toNat_ofNat']
      omega
  change max ≤ (Array.replicate (n + 1) (Slot.blank dataSize 0)).size - (i + .ofNat m - seen).toNat
  rw [Array.size_replicate]
  omega

theorem reserve_within (h : seen = i ∨ seen = i - 1) {max : Nat} (hm : max ≤ n) (look : UInt64) :
    reserveSeeing look max (level n dataSize i seen) =
      (max, { level n dataSize i seen with reserved := max }) := by
  have hahead := reserve_ahead dataSize h (m := 0) ((Nat.zero_add max).trans_le hm) look
  rwa [show i + UInt64.ofNat 0 = i from UInt64.add_zero i] at hahead

theorem publish_level :
    publish 1 { level n dataSize i i with reserved := n + 1 } =
      .ok { level n dataSize i i with head := i + 1 } := by
  rw [publish, if_pos (Nat.succ_le_succ (Nat.zero_le n))]
  rfl

theorem peek_level :
    peek 1 { level n dataSize i i with head := i + 1 } =
      (1, { level n dataSize i i with head := i + 1, cachedHead := i + 1, exposed := 1 }) := by
  have hone : i + 1 - i = 1 := by grind
  simp [peek, peekSeeing, refreshHead, readySeeing, level, hone]

theorem retire_level :
    retire 1 (peek 1 { level n dataSize i i with head := i + 1 }).2 =
      .ok (level n dataSize (i + 1) i) := by
  rw [peek_level, retire, if_pos (Nat.le_refl _)]
  rfl

theorem pop_level :
    pop { level n dataSize i i with head := i + 1 } =
      (some ⟨[], [], 0⟩, level n dataSize (i + 1) i) := by
  rw [pop, peek_level]
  simp [slotAt, level, Slot.packet, Slot.blank, Slot.payload, Slot.metadata]

end DmaBurst.PacketRing
