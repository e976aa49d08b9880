import DmaBurst.Proofs.Worker.Sink
import Mathlib.Data.Nat.Find
import Mathlib.Order.Monotone.Basic

namespace DmaBurst

/-- A reader of a finite stream. While it is `sound` it never fails: it returns some of the bytes
that are left, in order and at most as many as are asked for, or is interrupted with less patience
left. It returns no bytes only at the end. -/
class LawfulReader (ρ : Type) [ByteReader ρ] where
  unread : ρ → Bytes
  sound : ρ → Prop
  read_sound : ∀ (want : Nat) {s : ρ}, sound s → sound (ByteReader.read want s).2
  read_data : ∀ {want : Nat} {bytes : Bytes} {s t : ρ}, sound s → 0 < want →
    ByteReader.read want s = (.data bytes, t) →
    bytes.length ≤ want ∧ unread s = bytes ++ unread t ∧ (bytes = [] → unread s = [])
  read_interrupted : ∀ {want : Nat} {s t : ρ}, sound s →
    ByteReader.read want s = (.interrupted, t) →
    unread t = unread s ∧ ByteReader.patience t < ByteReader.patience s
  read_not_failed : ∀ {want : Nat} {e : IoError} {s : ρ}, sound s →
    (ByteReader.read want s).1 ≠ .failed e

def FileReader.unread : FileReader → Bytes
  | .file rest => rest
  | .directory => []

instance : LawfulReader FileReader where
  unread := FileReader.unread
  sound s := ∃ rest, s = .file rest
  read_sound want s := by
    rintro ⟨rest, rfl⟩
    exact ⟨rest.drop want, rfl⟩
  read_data {want bytes s t} := by
    rintro ⟨rest, rfl⟩ hwant h
    cases h
    refine ⟨List.length_take_le want rest, (List.take_append_drop want rest).symm, fun hnil => ?_⟩
    rcases List.take_eq_nil_iff.mp hnil with hzero | hrest
    · omega
    · exact hrest
  read_interrupted {want s t} := by
    rintro ⟨rest, rfl⟩ h
    cases h
  read_not_failed {want e s} := by
    rintro ⟨rest, rfl⟩ h
    cases h

theorem ScriptedReader.read_eq (want : Nat) {s : ScriptedReader} (h : s.failAt = none) :
    s.read want =
      if interrupts s.interrupt (s.calls + 1) then (.interrupted, { s with calls := s.calls + 1 })
      else
        (.data (s.rest.take (cutTo s.chunk want)),
          { s with
            calls := s.calls + 1
            rest := s.rest.drop (s.rest.take (cutTo s.chunk want)).length
            position := s.position + (s.rest.take (cutTo s.chunk want)).length }) := by
  simp only [read, h, reached, Option.any_none, Bool.false_eq_true, if_false]

/-- It is sound when no bad place is set, no read is cut to nothing and not every call is
interrupted. -/
instance : LawfulReader ScriptedReader where
  unread := ScriptedReader.rest
  sound s := s.failAt = none ∧ s.chunk ≠ some 0 ∧ s.interrupt ≠ some 1
  read_sound want s h := by
    have hread : ByteReader.read want s = s.read want := rfl
    rw [hread, s.read_eq want h.1]
    split <;> exact h
  read_data {want bytes s t} h hwant hread := by
    obtain ⟨hfail, hchunk, -⟩ := h
    change s.read want = _ at hread
    rw [s.read_eq want hfail] at hread
    split at hread
    · cases hread
    · cases hread
      have hcut : 0 < cutTo s.chunk want ∧ cutTo s.chunk want ≤ want := by
        rw [cutTo]
        rcases hc : s.chunk with _ | n
        · exact ⟨hwant, Nat.le_refl want⟩
        · have hn : n ≠ 0 := fun hzero => hchunk (hc.trans (congrArg some hzero))
          rw [Option.elim_some]
          omega
      refine ⟨(List.length_take_le _ _).trans hcut.2, ?_, fun hnil => ?_⟩
      · exact (List.prefix_iff_eq_append.mp (List.take_prefix _ _)).symm
      · exact (List.take_eq_nil_iff.mp hnil).resolve_left (Nat.ne_of_gt hcut.1)
  read_interrupted {want s t} h hread := by
    obtain ⟨hfail, -, hinter⟩ := h
    change s.read want = _ at hread
    rw [s.read_eq want hfail] at hread
    split at hread
    · next hi =>
      cases hread
      refine ⟨rfl, ?_⟩
      have hnext := not_interrupts_succ hinter hi
      change (if interrupts s.interrupt (s.calls + 1 + 1) = true then 1 else 0) <
        if interrupts s.interrupt (s.calls + 1) = true then 1 else 0
      rw [if_pos hi, if_neg hnext]
      exact Nat.one_pos
    · cases hread
  read_not_failed {want e s} h hread := by
    change (s.read want).1 = _ at hread
    rw [s.read_eq want h.1] at hread
    split at hread <;> cases hread

open LawfulReader

variable {ρ : Type} [ByteReader ρ] [LawfulReader ρ]

theorem gather_sound (want : Nat) {s : ρ} (hs : sound s) :
    ∃ t, gather want s = (.ok (), (unread s).take want, t) ∧ sound t ∧
      unread t = (unread s).drop want := by
  fun_induction gather want s with
  | case1 s => exact ⟨s, rfl, hs, rfl⟩
  | case2 want s hw t hread =>
    have ht := read_sound want hs
    rw [hread] at ht
    obtain ⟨-, hsplit, hend⟩ := read_data hs (Nat.pos_of_ne_zero hw) hread
    have hnil := hend rfl
    rw [hnil, List.nil_append] at hsplit
    rw [hnil, List.take_nil, List.drop_nil]
    exact ⟨t, rfl, ht, hsplit.symm⟩
  | case3 want s hw b bytes t hread piece answer more t' hgather ih =>
    have ht := read_sound want hs
    rw [hread] at ht
    obtain ⟨hlen, hsplit, -⟩ := read_data hs (Nat.pos_of_ne_zero hw) hread
    have hpiece : piece = b :: bytes := by
      rw [List.length_cons] at hlen
      exact congrArg (b :: ·) (List.take_of_length_le (by omega))
    obtain ⟨u, hu, hsound, hrest⟩ := ih ht
    rw [hgather] at hu
    cases hu
    rw [hsplit, hpiece, List.take_append, List.drop_append, List.take_of_length_le hlen,
      List.drop_of_length_le hlen, List.nil_append]
    exact ⟨t', rfl, hsound, hpiece ▸ hrest⟩
  | case4 want s hw t hread hlt ih =>
    have ht := read_sound want hs
    rw [hread] at ht
    rw [← (read_interrupted hs hread).1]
    exact ih ht
  | case5 want s hw t hread hlt => exact absurd (read_interrupted hs hread).2 hlt
  | case6 want s hw e t hread => exact absurd (congrArg Prod.fst hread) (read_not_failed hs)

namespace ReaderSource

def after (buffers : Nat → Bytes) (s : ReaderSource ρ) : Nat → ReaderSource ρ
  | 0 => s
  | k + 1 => ((s.after buffers k).next (buffers k)).2.2

/-- How far the first `k` buffers of a row reach in a stream that is cut into packets. -/
def reach (packetLen : Nat) (buffers : Nat → Bytes) : Nat → Nat
  | 0 => 0
  | k + 1 => reach packetLen buffers k + min packetLen (buffers k).length

def share (packetLen : Nat) (buffers : Nat → Bytes) (stream : Bytes) (k : Nat) : Bytes :=
  (stream.drop (reach packetLen buffers k)).take (min packetLen (buffers k).length)

variable {s : ReaderSource ρ} {buffers : Nat → Bytes} {packetLen : Nat} {stream : Bytes}

theorem next_sound (hs : sound s.reader) (area : Bytes) {packet : Bytes}
    (hp : packet = (unread s.reader).take (min s.packetLen area.length)) :
    (s.next area).1 = .ok (if packet = [] then none else some packet.length) ∧
      (s.next area).2.1 = packet ++ area.drop packet.length ∧
      sound (s.next area).2.2.reader ∧
      unread (s.next area).2.2.reader = (unread s.reader).drop (min s.packetLen area.length) := by
  obtain ⟨t, hgather, ht, hrest⟩ := gather_sound (min s.packetLen area.length) hs
  have hlen : packet.length ≤ area.length := by
    rw [hp, List.length_take]
    omega
  rw [next, hgather, ← hp]
  refine ⟨?_, ?_, ht, hrest⟩
  · simp only [List.isEmpty_iff, Except.map]
  · dsimp only
    rw [Bytes.overlay_eq, List.take_of_length_le hlen]

theorem after_sound (buffers : Nat → Bytes) (hs : sound s.reader) (k : Nat) :
    (s.after buffers k).packetLen = s.packetLen ∧ sound (s.after buffers k).reader ∧
      unread (s.after buffers k).reader =
        (unread s.reader).drop (reach s.packetLen buffers k) := by
  induction k with
  | zero => exact ⟨rfl, hs, rfl⟩
  | succ k ih =>
    obtain ⟨hlen, hsound, hrest⟩ := ih
    obtain ⟨-, -, hsound', hrest'⟩ := next_sound hsound (buffers k) rfl
    refine ⟨hlen, hsound', ?_⟩
    rw [after, hrest', hrest, hlen, List.drop_drop, reach]

theorem next_after (hs : sound s.reader) (k : Nat) {packet : Bytes}
    (hp : packet = share s.packetLen buffers (unread s.reader) k) :
    ((s.after buffers k).next (buffers k)).1 =
        .ok (if packet = [] then none else some packet.length) ∧
      ((s.after buffers k).next (buffers k)).2.1 =
        packet ++ (buffers k).drop packet.length := by
  obtain ⟨hlen, hsound, hrest⟩ := after_sound buffers hs k
  rw [share, ← hrest, ← hlen] at hp
  obtain ⟨hanswer, harea, -⟩ := next_sound hsound (buffers k) hp
  exact ⟨hanswer, harea⟩

theorem flatten_shares (packetLen : Nat) (buffers : Nat → Bytes) (stream : Bytes) (k : Nat) :
    ((List.range k).map (share packetLen buffers stream)).flatten =
      stream.take (reach packetLen buffers k) := by
  induction k with
  | zero => rfl
  | succ k ih =>
    rw [List.range_succ, List.map_append, List.flatten_append, ih, reach, List.take_add]
    simp [share]

theorem le_reach (hp : 0 < packetLen) (hb : ∀ k, buffers k ≠ []) (k : Nat) :
    k ≤ reach packetLen buffers k := by
  induction k with
  | zero => exact Nat.le_refl 0
  | succ k ih =>
    have hpos := List.length_pos_iff.mpr (hb k)
    rw [reach]
    omega

theorem reach_mono (packetLen : Nat) (buffers : Nat → Bytes) : Monotone (reach packetLen buffers) :=
  monotone_nat_of_le_succ fun _ => Nat.le_add_right _ _

theorem length_share (packetLen : Nat) (buffers : Nat → Bytes) (stream : Bytes) (k : Nat) :
    (share packetLen buffers stream k).length =
      min (min packetLen (buffers k).length) (stream.length - reach packetLen buffers k) := by
  rw [share, List.length_take, List.length_drop]

theorem share_eq_nil_iff (hp : 0 < packetLen) {k : Nat} (hb : buffers k ≠ []) :
    share packetLen buffers stream k = [] ↔ stream.length ≤ reach packetLen buffers k := by
  have hpos := List.length_pos_iff.mpr hb
  rw [← List.length_eq_zero_iff, length_share]
  omega

/-- The answers of a source to a row of buffers. The first ones get a packet each, in front of what
else they hold, and all others nothing. A packet is as long as it may be unless it is the last. -/
structure Delivers (s : ReaderSource ρ) (buffers : Nat → Bytes) (packets : List Bytes) : Prop where
  ne_nil : ∀ packet ∈ packets, packet ≠ []
  next_eq : ∀ k packet, packets[k]? = some packet →
    ((s.after buffers k).next (buffers k)).1 = .ok (some packet.length) ∧
      ((s.after buffers k).next (buffers k)).2.1 = packet ++ (buffers k).drop packet.length
  length_le : ∀ k packet, packets[k]? = some packet →
    packet.length ≤ min s.packetLen (buffers k).length
  length_eq : ∀ k packet, packets[k]? = some packet → k + 1 < packets.length →
    packet.length = min s.packetLen (buffers k).length
  dry : ∀ k, packets.length ≤ k →
    ((s.after buffers k).next (buffers k)).1 = .ok none ∧
      ((s.after buffers k).next (buffers k)).2.1 = buffers k

/-- The packets are the shares of the buffers that begin before the end of the stream. -/
theorem exists_delivers (hs : sound s.reader) (hp : 0 < s.packetLen) (hb : ∀ k, buffers k ≠ []) :
    ∃ packets, packets.flatten = unread s.reader ∧ s.Delivers buffers packets := by
  have hend : ∃ k, (unread s.reader).length ≤ reach s.packetLen buffers k :=
    ⟨_, le_reach hp hb _⟩
  obtain ⟨m, hm, hfirst⟩ : ∃ m, (unread s.reader).length ≤ reach s.packetLen buffers m ∧
      ∀ k, k < m → reach s.packetLen buffers k < (unread s.reader).length :=
    ⟨Nat.find hend, Nat.find_spec hend, fun k hk => Nat.not_le.mp (Nat.find_min hend hk)⟩
  let packets := (List.range m).map (share s.packetLen buffers (unread s.reader))
  have hlength : packets.length = m := by simp [packets]
  have hget : ∀ k packet, packets[k]? = some packet →
      k < m ∧ packet = share s.packetLen buffers (unread s.reader) k := by
    intro k packet h
    obtain ⟨i, hi, rfl⟩ := Option.map_eq_some_iff.mp ((List.getElem?_map ..).symm.trans h)
    obtain ⟨hlt, rfl⟩ := List.getElem?_eq_some_iff.mp hi
    rw [List.getElem_range]
    exact ⟨by simpa using hlt, rfl⟩
  have hne : ∀ k, k < m → share s.packetLen buffers (unread s.reader) k ≠ [] := by
    intro k hk
    rw [ne_eq, share_eq_nil_iff hp (hb k)]
    exact Nat.not_le.mpr (hfirst k hk)
  refine ⟨packets, ?_, ?_⟩
  · rw [flatten_shares, List.take_of_length_le hm]
  · constructor
    case ne_nil => exact List.forall_mem_map.mpr fun k hk => hne k (List.mem_range.mp hk)
    case next_eq =>
      intro k packet h
      obtain ⟨hk, hpacket⟩ := hget k packet h
      have hnext := next_after hs k hpacket
      rwa [if_neg (hpacket ▸ hne k hk)] at hnext
    case length_le =>
      intro k packet h
      obtain ⟨-, rfl⟩ := hget k packet h
      rw [length_share]
      exact Nat.min_le_left _ _
    case length_eq =>
      intro k packet h hk
      obtain ⟨-, rfl⟩ := hget k packet h
      have hnext := hfirst (k + 1) (hlength ▸ hk)
      rw [reach] at hnext
      rw [length_share]
      omega
    case dry =>
      intro k hk
      have hdone := hm.trans (reach_mono s.packetLen buffers (hlength ▸ hk))
      exact next_after hs k ((share_eq_nil_iff hp (hb k)).mpr hdone).symm

end ReaderSource

/-- Whatever the reader does, a source hands out its stream packet by packet, each as long as
packets and the buffer may be unless it is the last. -/
theorem packets_cut_stream (s : ReaderSource ρ) (hs : sound s.reader) (hp : 0 < s.packetLen)
    (buffers : Nat → Bytes) (hb : ∀ k, buffers k ≠ []) :
    ∃ packets : List Bytes, packets.flatten = unread s.reader ∧
      (∀ packet ∈ packets, packet ≠ []) ∧
      (∀ k packet, packets[k]? = some packet →
        ((s.after buffers k).next (buffers k)).1 = .ok (some packet.length) ∧
        ((s.after buffers k).next (buffers k)).2.1 = packet ++ (buffers k).drop packet.length ∧
        packet.length ≤ min s.packetLen (buffers k).length ∧
        (k + 1 < packets.length → packet.length = min s.packetLen (buffers k).length)) ∧
      ∀ k, packets.length ≤ k →
        ((s.after buffers k).next (buffers k)).1 = .ok none ∧
        ((s.after buffers k).next (buffers k)).2.1 = buffers k := by
  obtain ⟨packets, hflat, h⟩ := ReaderSource.exists_delivers hs hp hb
  refine ⟨packets, hflat, h.ne_nil, fun k packet hk => ?_, h.dry⟩
  obtain ⟨hanswer, harea⟩ := h.next_eq k packet hk
  exact ⟨hanswer, harea, h.length_le k packet hk, h.length_eq k packet hk⟩

/-- Every second call of the reader is interrupted, and none returns more than two bytes. -/
def haltingSource : ReaderSource ScriptedReader where
  reader := { rest := [1, 2, 3, 4, 5, 6, 7, 8, 9], chunk := some 2, interrupt := some 2 }
  packetLen := 4

def haltingBuffers (k : Nat) : Bytes :=
  List.replicate (if k = 1 then 3 else 6) 0

theorem haltingSource_cut :
    sound haltingSource.reader ∧ 0 < haltingSource.packetLen ∧
      ∃ packets : List Bytes, packets.flatten = [1, 2, 3, 4, 5, 6, 7, 8, 9] ∧
        (∀ k packet, packets[k]? = some packet →
          ((haltingSource.after haltingBuffers k).next (haltingBuffers k)).1 =
            .ok (some packet.length)) ∧
        ∀ k, packets.length ≤ k →
          ((haltingSource.after haltingBuffers k).next (haltingBuffers k)).1 = .ok none := by
  have hs : sound haltingSource.reader := by
    refine ⟨rfl, ?_, ?_⟩ <;> simp [haltingSource]
  have hb : ∀ k, haltingBuffers k ≠ [] := by
    intro k
    rw [haltingBuffers]
    split <;> simp
  obtain ⟨packets, hflat, -, hnext, hdry⟩ :=
    packets_cut_stream haltingSource hs (by decide) haltingBuffers hb
  exact ⟨hs, by decide, packets, hflat, fun k packet hk => (hnext k packet hk).1,
    fun k hk => (hdry k hk).1⟩

end DmaBurst
