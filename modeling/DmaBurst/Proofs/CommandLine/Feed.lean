import DmaBurst.CommandLine.Emulation
import DmaBurst.Proofs.Card.Lines
import DmaBurst.Proofs.Ring.Window
import Mathlib.Data.List.Basic

namespace DmaBurst.CommandLine.Feed

/-- Packet `seq` of a queue, byte by byte: the number of the packet in front, the least significant
byte first, and the index of the queue behind it. -/
def stamped (queue packetLen seq : Nat) : Bytes :=
  (List.range packetLen).map fun k =>
    if k < 8 then UInt8.ofNat (seq / 256 ^ k) else UInt8.ofNat queue

theorem payload_eq_stamped (queue packetLen seq : Nat) :
    payload queue packetLen seq = stamped queue packetLen seq := by
  have hlen : (Bytes.littleEndian seq).length = 8 := by simp [Bytes.littleEndian]
  refine List.ext_getElem (by simp [payload, stamped, Bytes.length_overlay]) fun k hk hk' => ?_
  rw [stamped, List.length_map, List.length_range] at hk'
  simp only [payload, Bytes.overlay_eq, List.length_replicate, stamped, List.getElem_map,
    List.getElem_range]
  by_cases h8 : k < 8
  · rw [if_pos h8, List.getElem_append_left (by simp [hlen]; omega), List.getElem_take]
    simp [Bytes.littleEndian, Nat.shiftRight_eq_div_pow, Nat.pow_mul]
  · rw [if_neg h8, List.getElem_append_right (by simp [hlen]; omega), List.getElem_drop,
      List.getElem_replicate]

@[simp] theorem length_stamped (queue packetLen seq : Nat) :
    (stamped queue packetLen seq).length = packetLen := by
  simp [stamped]

def packet (queue packetLen seq : Nat) : Packet :=
  ⟨stamped queue packetLen seq, [], 0⟩

theorem flatten_packets (queue packetLen n : Nat) :
    (((List.range n).map (packet queue packetLen)).map Packet.data).flatten =
      (List.range n).flatMap (stamped queue packetLen) := by
  rw [List.map_map, List.flatMap_def]
  rfl

theorem length_flatMap_stamped (queue packetLen n : Nat) :
    ((List.range n).flatMap (stamped queue packetLen)).length = n * packetLen := by
  simp [List.length_flatMap]

def offer (f : Feed) (card : Card) : Feed × Card :=
  match f.left with
  | 0 => (f, card)
  | left + 1 =>
    let (accepted, card) := card.push ⟨.rx, f.queue⟩ (payload f.queue f.packetLen f.delivered) [] 0
    (if accepted then { f with delivered := f.delivered + 1, left } else f, card)

def offerAt (i : Nat) (x : List Feed × Card) : List Feed × Card :=
  match x.1[i]? with
  | none => x
  | some f => (x.1.set i (f.offer x.2).1, (f.offer x.2).2)

def offers (order : List Nat) (x : List Feed × Card) : List Feed × Card :=
  order.foldl (fun x i => offerAt i x) x

theorem offers_append (order order' : List Nat) (x : List Feed × Card) :
    offers (order ++ order') x = offers order' (offers order x) :=
  List.foldl_append

theorem offerAt_length (before after : List Feed) (f : Feed) (card : Card) :
    offerAt before.length (before ++ f :: after, card) =
      (before ++ (f.offer card).1 :: after, (f.offer card).2) := by
  simp [offerAt]

theorem exists_offers_act (before after : List Feed) (f : Feed) (card : Card) :
    ∃ n, offers (List.replicate n before.length) (before ++ f :: after, card) =
      (before ++ (f.act card).1 :: after, (f.act card).2) := by
  obtain ⟨queue, packetLen, delivered, left⟩ := f
  rw [act]
  induction left generalizing delivered card with
  | zero => exact ⟨0, rfl⟩
  | succ left ih =>
    have hoffer := offerAt_length before after ⟨queue, packetLen, delivered, left + 1⟩ card
    rw [offer] at hoffer
    dsimp only at hoffer ⊢
    rw [deliver]
    rcases hpush : card.push ⟨.rx, queue⟩ (payload queue packetLen delivered) [] 0 with
      ⟨_ | _, card'⟩
    · rw [hpush] at hoffer
      exact ⟨1, hoffer⟩
    · rw [hpush] at hoffer
      obtain ⟨n, hn⟩ := ih card' (delivered + 1)
      refine ⟨n + 1, ?_⟩
      rw [List.replicate_succ, offers, List.foldl_cons, hoffer]
      exact hn

/-- What the feeds do between two sweeps are offers in some order. -/
theorem exists_offers (fs : List Feed) (card : Card) :
    ∃ order, offers order (fs, card) = actAll fs card := by
  suffices h : ∀ before, ∃ order, offers order (before ++ fs, card) =
      (before ++ (actAll fs card).1, (actAll fs card).2) from h []
  induction fs generalizing card with
  | nil => exact fun before => ⟨[], rfl⟩
  | cons f fs ih =>
    intro before
    obtain ⟨n, hn⟩ := exists_offers_act before fs f card
    obtain ⟨order, horder⟩ := ih (f.act card).2 (before ++ [(f.act card).1])
    refine ⟨List.replicate n before.length ++ order, ?_⟩
    rw [List.append_assoc, List.append_assoc, List.singleton_append,
      List.singleton_append] at horder
    rw [offers_append, hn, horder]
    rfl

theorem addresses_of_le_budgetMax {capacity total : Nat} (h : (total : Int) ≤ budgetMax) :
    PacketRing.Addresses capacity total := by
  simp only [budgetMax] at h
  exact PacketRing.addresses_of_dvd_or_le (.inr (by omega))

/-- The ring holds the packets that the feed has delivered, in order, but for the first `taken` of
them, which the driver has taken off. Of `total` packets in all, the others are still to come. -/
structure Fills (f : Feed) (total taken : Nat) (r : PacketRing) : Prop where
  total_eq : f.delivered + f.left = total
  taken_le : taken ≤ f.delivered
  shows : ∃ c q, r.Shows c q ∧ c.head = f.delivered ∧ f.packetLen ≤ q.dataSize ∧
    q.queue = (List.range' taken (f.delivered - taken)).map (packet f.queue f.packetLen)

namespace Fills

variable {f : Feed} {total taken : Nat} {r : PacketRing} {card : Card}

theorem offer (h : f.Fills total taken r) (ht : total ≤ budgetMax)
    (hr : card.ring? ⟨.rx, f.queue⟩ = some r) :
    (f.offer card).1.queue = f.queue ∧ (f.offer card).1.packetLen = f.packetLen ∧
      ∃ r', (f.offer card).2 = card.setRing ⟨.rx, f.queue⟩ r' ∧
        (f.offer card).1.Fills total taken r' := by
  obtain ⟨queue, packetLen, delivered, left⟩ := f
  cases left with
  | zero => exact ⟨rfl, rfl, r, (Card.setRing_self hr).symm, h⟩
  | succ left =>
    obtain ⟨htotal, htaken, c, q, hshow, hhead, hsize, hqueue⟩ := h
    dsimp only at htotal htaken hhead hsize hqueue hr
    have ha : PacketRing.Addresses r.capacity total := addresses_of_le_budgetMax ht
    have hpush : card.push ⟨.rx, queue⟩ (payload queue packetLen delivered) [] 0 =
        ((r.push (payload queue packetLen delivered) [] 0).1,
          card.setRing ⟨.rx, queue⟩ (r.push (payload queue packetLen delivered) [] 0).2) :=
      Prod.ext (Card.withRing_fst hr _) (Card.withRing_snd hr _)
    rw [Feed.offer]
    simp only [hpush]
    by_cases hfull : q.queue.length = q.capacity
    · obtain ⟨hturned, c', hc, -, hshow'⟩ := hshow.push_of_full hfull ha (by omega)
        (payload queue packetLen delivered) [] 0
      rw [hturned, if_neg Bool.false_ne_true]
      exact ⟨rfl, rfl, _, rfl, htotal, htaken, c', _, hshow', hc.trans hhead, hsize, hqueue⟩
    · have hfree : q.queue.length < q.capacity := by
        have := hshow.length_le
        omega
      obtain ⟨haccepted, c', hc, -, hshow'⟩ := hshow.push_of_free hfree ha (by omega)
        (payload queue packetLen delivered) [] 0
      rw [haccepted, if_pos rfl]
      refine ⟨rfl, rfl, _, rfl, ?_, ?_, c', _, hshow', ?_, hsize, ?_⟩
      · dsimp only
        omega
      · exact Nat.le_succ_of_le htaken
      · exact hc.trans (congrArg Nat.succ hhead)
      · have hdata : (payload queue packetLen delivered).take q.dataSize =
            stamped queue packetLen delivered := by
          rw [payload_eq_stamped, List.take_of_length_le (by simpa using hsize)]
        have hlast : taken + (delivered - taken) = delivered := by omega
        dsimp only
        rw [hqueue, hdata, List.take_nil, Nat.succ_sub htaken, List.range'_1_concat,
          List.map_append, hlast]
        rfl

theorem takeOff (h : f.Fills total taken r) (ht : total ≤ budgetMax) (max : Nat) :
    ∃ n, r.contents.take max = (List.range' taken n).map (packet f.queue f.packetLen) ∧
      f.Fills total (taken + n) (r.takeOff max) := by
  obtain ⟨htotal, htaken, c, q, hshow, hhead, hsize, hqueue⟩ := h
  have ha : PacketRing.Addresses r.capacity c.head := addresses_of_le_budgetMax (by omega)
  obtain ⟨c', hc, hshow'⟩ := hshow.takeOff max
  obtain ⟨n, hn⟩ : ∃ n, n = min max q.queue.length := ⟨_, rfl⟩
  have hlen : q.queue.length = f.delivered - taken := by simp [hqueue]
  have hsplit : q.queue = (List.range' taken n).map (packet f.queue f.packetLen) ++
      (List.range' (taken + n) (f.delivered - (taken + n))).map (packet f.queue f.packetLen) := by
    have hsum : f.delivered - taken = n + (f.delivered - (taken + n)) := by omega
    rw [hqueue, hsum, ← List.range'_append_1, List.map_append]
  refine ⟨n, ?_, htotal, by omega, c', _, hshow', hc.trans hhead, hsize, ?_⟩
  · rw [hshow.contents ha, List.take_eq_take_min, ← hn, hsplit, List.take_left' (by simp)]
  · dsimp only
    rw [List.drop_eq_drop_min, ← hn, hsplit, List.drop_left' (by simp)]

end Fills

structure Fed (packetLen : Nat) (totals : List Nat) (taken : Nat → Nat) (x : List Feed × Card) :
    Prop where
  length_eq : x.1.length = totals.length
  fills : ∀ {i f}, x.1[i]? = some f → f.queue = i ∧ f.packetLen = packetLen ∧
    ∃ total r, totals[i]? = some total ∧ x.2.ring? ⟨.rx, i⟩ = some r ∧ f.Fills total (taken i) r

namespace Fed

variable {packetLen i total count : Nat} {totals : List Nat} {taken : Nat → Nat}
  {x : List Feed × Card} {f f' : Feed} {r r' : PacketRing}

theorem exists_feed (h : Fed packetLen totals taken x) (hi : i < totals.length) :
    ∃ f, x.1[i]? = some f :=
  ⟨_, List.getElem?_eq_getElem (h.length_eq.symm ▸ hi)⟩

theorem isSome_ring? (h : Fed packetLen totals taken x) (hi : i < totals.length) :
    (x.2.ring? ⟨.rx, i⟩).isSome := by
  obtain ⟨f, hf⟩ := h.exists_feed hi
  obtain ⟨-, -, total, r, -, hr, -⟩ := h.fills hf
  rw [hr]
  rfl

theorem set (h : Fed packetLen totals taken x) (hf : x.1[i]? = some f)
    (hr : x.2.ring? ⟨.rx, i⟩ = some r) (htotal : totals[i]? = some total) (hq : f'.queue = i)
    (hlen : f'.packetLen = packetLen) (hfills : f'.Fills total count r') :
    Fed packetLen totals (Function.update taken i count)
      (x.1.set i f', x.2.setRing ⟨.rx, i⟩ r') := by
  refine ⟨by simpa using h.length_eq, fun {j g} hg => ?_⟩
  dsimp only at hg ⊢
  rw [Card.ring?_setRing hr]
  by_cases hij : i = j
  · subst hij
    rw [List.getElem?_set_self (List.getElem?_eq_some_iff.mp hf).1] at hg
    cases hg
    rw [if_pos rfl, Function.update_self]
    exact ⟨hq, hlen, total, r', htotal, rfl, hfills⟩
  · rw [List.getElem?_set_ne hij] at hg
    rw [if_neg (fun hid => hij (QueueId.mk.inj hid).2), Function.update_of_ne (Ne.symm hij)]
    exact h.fills hg

theorem of_rings (h : Fed packetLen totals taken x) {card : Card}
    (hr : ∀ q, card.ring? q = x.2.ring? q) : Fed packetLen totals taken (x.1, card) := by
  refine ⟨h.length_eq, fun {i f} hf => ?_⟩
  rw [hr]
  exact h.fills hf

theorem offerAt (h : Fed packetLen totals taken x)
    (ht : ∀ total ∈ totals, (total : Int) ≤ budgetMax) (i : Nat) :
    Fed packetLen totals taken (offerAt i x) := by
  rw [Feed.offerAt]
  split
  · exact h
  · next f hf =>
    obtain ⟨hq, hlen, total, r, htotal, hr, hfills⟩ := h.fills hf
    obtain ⟨hq', hlen', r', hcard, hfills'⟩ :=
      hfills.offer (ht total (List.mem_of_getElem? htotal)) (hq.symm ▸ hr)
    have hset := h.set hf hr htotal (hq'.trans hq) (hlen'.trans hlen) hfills'
    rw [hq] at hcard
    rwa [Function.update_eq_self, ← hcard] at hset

/-- Whenever the feeds make their offers, the rings hold what they have delivered. -/
theorem offers (h : Fed packetLen totals taken x) (ht : ∀ total ∈ totals, (total : Int) ≤ budgetMax)
    (order : List Nat) : Fed packetLen totals taken (offers order x) := by
  induction order generalizing x with
  | nil => exact h
  | cons i order ih => exact ih (h.offerAt ht i)

end Fed

def totals (e : Emulation) (budgets : List Int) : List Nat :=
  budgets.map fun b => b.toNat - e.withhold

theorem totals_le {e : Emulation} {budgets : List Int} (h : ∀ b ∈ budgets, 0 < b ∧ b ≤ budgetMax) :
    ∀ total ∈ totals e budgets, (total : Int) ≤ budgetMax :=
  List.forall_mem_map.mpr fun b hb => by
    have := h b hb
    omega

theorem fed_feeds {s : Settings} {budgets : List Int} {card : Card}
    (hcap : s.emulation.ringCapacity < 2 ^ 64)
    (hcard : Card.create (rxSpec s) = .ok card) (hlen : budgets.length = s.config.rx.queueCount) :
    Fed s.emulation.rxPacketLen (totals s.emulation budgets) (fun _ => 0)
      (feeds s.emulation budgets, card) := by
  refine ⟨by simp [feeds, totals], fun {i f} hf => ?_⟩
  simp only [feeds, List.getElem?_map, List.getElem?_zipIdx, Option.map_map, Nat.zero_add] at hf
  obtain ⟨budget, hb, rfl⟩ := Option.map_eq_some_iff.mp hf
  have hi : i < (rxSpec s).queueCount .rx := by
    have hlt := (List.getElem?_eq_some_iff.mp hb).1
    rwa [hlen] at hlt
  obtain ⟨-, r, hr, hline⟩ := Card.create_line (q := ⟨.rx, i⟩) hcard hi
  obtain ⟨-, hshow⟩ := PacketRing.shows_of_create hcap hr
  refine ⟨rfl, rfl, budget.toNat - s.emulation.withhold, r, ?_, ?_, ?_⟩
  · rw [totals, List.getElem?_map, hb]
    rfl
  · rw [Card.ring?, hline]
    rfl
  · exact ⟨Nat.zero_add _, Nat.le_refl 0, _, _, hshow, rfl, Nat.le_max_right _ _, rfl⟩

end DmaBurst.CommandLine.Feed
