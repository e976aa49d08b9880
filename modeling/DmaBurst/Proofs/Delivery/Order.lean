import DmaBurst.Proofs.Delivery.Owner

namespace DmaBurst

namespace Rig

open PacketRing

variable {q : QueueId} {rig rig' : Rig} {r : PacketRing} {c : Counts} {f : Fifo} {bound : Nat}

/-- Queue `q` of the card is a picture of `f`, and one handle at most drives it. -/
structure Serves (q : QueueId) (rig : Rig) (r : PacketRing) (c : Counts) (f : Fifo) : Prop where
  ring : rig.card.ring? q = some r
  pictured : r.Shows c f
  dataSize_eq : f.dataSize = rig.card.spec.slotSize
  headerSize_eq : f.headerSize = rig.card.spec.headerSize
  holds : ∀ {name h}, rig.handles name = some h → h.queue.channel.id = q → h.Holds rig.card r c f
  isBound : ∀ {name h}, rig.handles name = some h → h.Owns q → rig.card.isBound q = true
  unique : ∀ {name name' h h'}, rig.handles name = some h → rig.handles name' = some h' →
    h.Owns q → h'.Owns q → name = name'

theorem Serves.owns (hs : rig.Serves q r c f) {name : Nat} {h : Handle} {len : Nat}
    (hn : rig.handles name = some h) (hid : h.queue.channel.id = q) (hb : h.burst = some len) :
    h.Owns q := by
  obtain ⟨queue, burst⟩ := h
  cases hb
  exact ⟨hid, (hs.holds hn hid).lends.bound⟩

theorem Serves.congr (hs : rig.Serves q r c f) (hh : rig'.handles = rig.handles)
    (hspec : rig'.card.spec = rig.card.spec) (hring : rig'.card.ring? q = rig.card.ring? q)
    (hbound : rig'.card.isBound q = rig.card.isBound q) : rig'.Serves q r c f := by
  obtain ⟨h1, h2, h3, h4, h5, h6, h7⟩ := hs
  refine ⟨hring.trans h1, h2, by rw [h3, hspec], by rw [h4, hspec], fun hn hid => ?_,
    fun hn ho => ?_, fun hn hn' => ?_⟩
  · rw [hh] at hn
    obtain ⟨-, -, h8, h9⟩ := h5 hn hid
    exact ⟨(congrArg _ hid).trans (hring.trans h1), h2, h8, h9⟩
  · rw [hh] at hn
    rw [hbound]
    exact h6 hn ho
  · rw [hh] at hn hn'
    exact h7 hn hn'

theorem Serves.port {α : Type} {F : PacketRing → α × PacketRing} {c' : Counts} {f' : Fifo}
    (hs : rig.Serves q r c f) (hshow : (F r).2.Shows c' f') {entered left : List Packet}
    (hm : f.Moves f' entered left)
    (hw : (F r).2.windowOf q.direction = r.windowOf q.direction) :
    Serves q { rig with card := (rig.card.withRing q F).2 } (F r).2 c' f' := by
  have hring : (rig.card.withRing q F).2.ring? q = some (F r).2 := by
    rw [rig.card.ring?_withRing, if_pos rfl, hs.ring, Option.map_some]
  refine ⟨hring, hshow, ?_, ?_, fun {name h} hn hid => ?_, fun hn ho => ?_, hs.unique⟩
  · exact hm.dataSize_eq.trans (hs.dataSize_eq.trans (congrArg _ (rig.card.spec_withRing q F).symm))
  · exact hm.headerSize_eq.trans
      (hs.headerSize_eq.trans (congrArg _ (rig.card.spec_withRing q F).symm))
  · obtain ⟨-, -, hc, hwin⟩ := hs.holds hn hid
    refine ⟨(congrArg _ hid).trans hring, hshow, hc, fun len hl => ?_⟩
    rw [← hwin len hl, hid, hw]
  · exact (rig.card.isBound_withRing q q F).trans (hs.isBound hn ho)

theorem Serves.update_of_ne (hs : rig.Serves q r c f) {name : Nat} {h : Handle} {card : Card}
    (hid : h.queue.channel.id ≠ q) (hspec : card.spec = rig.card.spec)
    (hring : card.ring? q = rig.card.ring? q) (hbound : card.isBound q = rig.card.isBound q) :
    Serves q { card, handles := Function.update rig.handles name (some h) } r c f := by
  have hold : ∀ {n g}, Function.update rig.handles name (some h) n = some g →
      g.queue.channel.id = q → rig.handles n = some g := by
    intro n g hn hg
    by_cases hname : n = name
    · subst hname
      rw [Function.update_self] at hn
      cases hn
      exact absurd hg hid
    · rwa [Function.update_of_ne hname] at hn
  have hc : Serves q { rig with card } r c f := hs.congr rfl hspec hring hbound
  exact ⟨hc.ring, hc.pictured, hc.dataSize_eq, hc.headerSize_eq,
    fun hn hg => hc.holds (hold hn hg) hg, fun hn ho => hc.isBound (hold hn ho.1) ho,
    fun hn hn' ho ho' => hs.unique (hold hn ho.1) (hold hn' ho'.1) ho ho'⟩

theorem Serves.update_of_eq (hs : rig.Serves q r c f) {name : Nat} {h : Handle} {card : Card}
    {r' : PacketRing} {c' : Counts} {f' : Fifo}
    (hno : ∀ {n g}, n ≠ name → rig.handles n = some g → ¬ g.Owns q)
    (hspec : card.spec = rig.card.spec) (hh : h.Holds card r' c' f')
    (hid : h.queue.channel.id = q) {entered left : List Packet} (hm : f.Moves f' entered left)
    (hbound : h.queue.channel.bound = true → card.isBound q = true) :
    Serves q { card, handles := Function.update rig.handles name (some h) } r' c' f' := by
  have hring : card.ring? q = some r' := hid ▸ hh.ring
  have hother : ∀ {n g}, n ≠ name → Function.update rig.handles name (some h) n = some g →
      rig.handles n = some g ∧ ¬ g.Owns q := by
    intro n g hne hg
    rw [Function.update_of_ne hne] at hg
    exact ⟨hg, hno hne hg⟩
  have hself : ∀ {g}, Function.update rig.handles name (some h) name = some g → g = h := by
    intro g hg
    rw [Function.update_self] at hg
    exact (Option.some.inj hg).symm
  refine ⟨hring, hh.pictured, hm.dataSize_eq.trans (hs.dataSize_eq.trans (congrArg _ hspec.symm)),
    hm.headerSize_eq.trans (hs.headerSize_eq.trans (congrArg _ hspec.symm)), ?_, ?_, ?_⟩
  · intro n g hg hgid
    by_cases hname : n = name
    · subst hname
      rw [hself hg]
      exact hh
    · obtain ⟨hg', hn⟩ := hother hname hg
      exact ⟨(congrArg _ hgid).trans hring, hh.pictured, (hs.holds hg' hgid).coherent,
        fun len hl => absurd (hs.owns hg' hgid hl) hn⟩
  · intro n g hg hgo
    by_cases hname : n = name
    · subst hname
      rw [hself hg] at hgo
      exact hbound hgo.2
    · exact absurd hgo (hother hname hg).2
  · intro n n' g g' hg hg' hgo hgo'
    by_cases hname : n = name
    · by_cases hname' : n' = name
      · exact hname.trans hname'.symm
      · exact absurd hgo' (hother hname' hg').2
    · exact absurd hgo (hother hname hg).2

theorem Serves.openOn (hs : rig.Serves q r c f) {queue : Queue} {card : Card}
    (hopen : Queue.openOn q rig.card = .ok (queue, card)) (name : Nat) :
    Serves q { card, handles := Function.update rig.handles name (some ⟨queue, none⟩) } r c f := by
  obtain ⟨hr, rfl, rfl⟩ := Queue.openOn_eq hopen
  have hfree := Queue.not_isBound_of_bindRefusal hr
  have hring : ((rig.card.setBound q true).record (.queueOpened q)).ring? q = some r := by
    rw [Card.ring?_record, Card.ring?_setBound]
    exact hs.ring
  have hbound : ((rig.card.setBound q true).record (.queueOpened q)).isBound q = true := by
    obtain ⟨line, hl, -⟩ := Option.map_eq_some_iff.mp hs.ring
    rw [Card.isBound_record, Card.isBound_setBound, if_pos rfl, hl]
    rfl
  refine hs.update_of_eq (fun _ hg ho => ?_) (by simp) ?_ rfl (.refl f) fun _ => hbound
  · exact Bool.false_ne_true (hfree.symm.trans (hs.isBound hg ho))
  · exact ⟨hring, hs.pictured, ⟨rfl, by simp, fun hn => by cases hn⟩, fun len hl => by cases hl⟩

theorem Serves.act (hs : rig.Serves q r c f) {name : Nat} {h : Handle}
    (hn : rig.handles name = some h) (hid : h.queue.channel.id = q) (op : HandleOp)
    (ha : Addresses r.capacity bound) (hb : c.head + r.reserved ≤ bound)
    (hb' : ∀ r', (h.act op rig.card).2.ring? q = some r' → c.head + r'.reserved ≤ bound) :
    ∃ r' c' f', Serves q { card := (h.act op rig.card).2
                           handles := Function.update rig.handles name (some (h.act op rig.card).1) }
        r' c' f' ∧ f.Moves f' (h.sent op rig.card) (h.received op rig.card) ∧
      c'.head = c.head + (h.sent op rig.card).length := by
  have hh := hs.holds hn hid
  have hspec := (Handle.act_frame op h rig.card).1
  cases hbound : h.queue.channel.bound with
  | false =>
    obtain ⟨h1, h2, h3, h4⟩ := Handle.act_closed hh.coherent hbound op rig.card
    obtain ⟨queue, burst⟩ := h
    cases h4
    rw [h1, ← hn, Function.update_eq_self, Handle.sent_of_none, Handle.received_of_none]
    exact ⟨r, c, f, hs.congr rfl hspec (h2.2 q) (h3 q), .refl f, rfl⟩
  | true =>
    have hid' := (Handle.act_id op h rig.card).trans hid
    obtain ⟨r', c', f', hh', hm, hc⟩ := hh.act op ha hb hbound (by rwa [hid])
    refine ⟨r', c', f', hs.update_of_eq (fun hne hg ho => ?_) hspec hh' hid' hm fun hn' => ?_, hm, hc⟩
    · exact hne (hs.unique hg hn ho ⟨hid, hbound⟩)
    · have hkept := (Handle.act_bound hh.coherent hn').2
      rw [hid] at hkept
      exact hkept.trans (hs.isBound hn ⟨hid, hbound⟩)

theorem Serves.of_sameRings (hs : rig.Serves q r c f) {card : Card}
    (hc : rig.card.SameRings card ∧ ∀ p, card.isBound p = rig.card.isBound p) :
    Serves q { rig with card } r c f :=
  hs.congr rfl hc.1.1 (hc.1.2 q) (hc.2 q)

theorem Serves.port_of_ne {α : Type} (hs : rig.Serves q r c f) {p : QueueId} (hp : p ≠ q)
    (F : PacketRing → α × PacketRing) :
    Serves q { rig with card := (rig.card.withRing p F).2 } r c f := by
  refine hs.congr rfl (rig.card.spec_withRing p F) ?_ (rig.card.isBound_withRing p q F)
  exact (rig.card.ring?_withRing p q F).trans (if_neg hp)

theorem lent_eq (h : rig.card.ring? q = some r) : rig.lent q = r.reserved := by
  rw [lent, h]
  rfl

theorem Serves.push {index : Nat} (hs : rig.Serves ⟨.rx, index⟩ r c f) (data header : Bytes)
    (flags : UInt16) (ha : Addresses r.capacity bound)
    (hb : c.head + (entering ⟨.rx, index⟩ (.push index data header flags) rig).length ≤ bound) :
    ∃ r' c' f', (step (.push index data header flags) rig).Serves ⟨.rx, index⟩ r' c' f' ∧
      f.Moves f' (entering ⟨.rx, index⟩ (.push index data header flags) rig) [] ∧
      c'.head = c.head + (entering ⟨.rx, index⟩ (.push index data header flags) rig).length ∧
      f'.held .rx = f.held .rx := by
  have hfst : (rig.card.push ⟨.rx, index⟩ data header flags).1 = (r.push data header flags).1 :=
    Card.withRing_fst hs.ring _
  rw [entering, hfst] at hb ⊢
  by_cases hfull : f.queue.length < f.capacity
  · have htrue := hs.pictured.push_fst data header flags
    rw [decide_eq_true hfull] at htrue
    rw [htrue, if_pos ⟨rfl, rfl⟩] at hb ⊢
    obtain ⟨-, c', hc, -, hshow⟩ := hs.pictured.push_of_free hfull ha hb data header flags
    have hexp := hs.pictured.exposed_eq.symm ▸ hs.pictured.exposed_le
    have hm : f.Moves { f with
        queue := f.queue ++ [⟨data.take f.dataSize, header.take f.headerSize, flags⟩]
        reservation := [] }
        [⟨data.take rig.card.spec.slotSize, header.take rig.card.spec.headerSize, flags⟩] [] := by
      rw [← hs.dataSize_eq, ← hs.headerSize_eq]
      exact ⟨rfl, rfl, rfl, rfl⟩
    exact ⟨_, c', _, hs.port hshow hm (hshow.exposed_eq.symm.trans hs.pictured.exposed_eq), hm, hc,
      List.take_append_of_le_length hexp⟩
  · have hlen := hs.pictured.length_le
    obtain ⟨hfalse, c', hc, -, hshow⟩ :=
      hs.pictured.push_of_full (by omega) ha (by omega) data header flags
    rw [hfalse, if_neg (by simp)]
    have hm : f.Moves { f with reservation := [] } [] [] :=
      ⟨rfl, rfl, rfl, List.append_nil _⟩
    exact ⟨_, c', _, hs.port hshow hm (hshow.exposed_eq.symm.trans hs.pictured.exposed_eq), hm, hc,
      rfl⟩

theorem Serves.pop {index : Nat} (hs : rig.Serves ⟨.tx, index⟩ r c f)
    (ha : Addresses r.capacity bound) (hb : c.head ≤ bound) :
    ∃ r' c' f', (step (.pop index) rig).Serves ⟨.tx, index⟩ r' c' f' ∧
      f.Moves f' [] (leaving ⟨.tx, index⟩ (.pop index) rig) ∧ c'.head = c.head ∧
      f'.held .tx = f.held .tx := by
  have hfst : (rig.card.pop ⟨.tx, index⟩).1 = r.pop.1 := Card.withRing_fst hs.ring _
  rw [leaving, if_pos rfl, hfst]
  cases hq : f.queue with
  | nil =>
    obtain ⟨hp, c', hc, hres, hshow⟩ := hs.pictured.pop_of_empty hq
    have hm : f.Moves { f with exposed := 0 } [] [] := ⟨rfl, rfl, rfl, List.append_nil _⟩
    rw [hp]
    exact ⟨_, c', _, hs.port hshow hm hres, hm, hc, rfl⟩
  | cons p rest =>
    obtain ⟨hp, c', hc, hres, hshow⟩ := hs.pictured.pop_of_cons hq ha hb
    have hm : f.Moves { f with queue := rest, exposed := 0 } [] [p] :=
      ⟨rfl, rfl, rfl, by simp [hq]⟩
    rw [hp]
    exact ⟨_, c', _, hs.port hshow hm hres, hm, hc, rfl⟩

theorem Serves.drain {index : Nat} (hs : rig.Serves ⟨.tx, index⟩ r c f)
    (ha : Addresses r.capacity bound) (hb : c.head ≤ bound) :
    ∃ r' c' f', (step (.drain index) rig).Serves ⟨.tx, index⟩ r' c' f' ∧
      f.Moves f' [] (leaving ⟨.tx, index⟩ (.drain index) rig) ∧ c'.head = c.head ∧
      f'.held .tx = f.held .tx := by
  have hfst : (rig.card.drain ⟨.tx, index⟩).1 = r.drain.1 := Card.withRing_fst hs.ring _
  obtain ⟨hp, c', hc, hres, hshow⟩ := hs.pictured.drain ha hb
  have hm : f.Moves { f with queue := [], exposed := 0 } [] f.queue := ⟨rfl, rfl, rfl, rfl⟩
  rw [leaving, if_pos rfl, hfst, hp]
  exact ⟨_, c', _, hs.port hshow hm hres, hm, hc, rfl⟩

theorem Serves.openQueue (hs : rig.Serves q r c f) (name : Nat) (p : QueueId) :
    (step (.openQueue name p) rig).Serves q r c f := by
  rw [step]
  split
  · next hn hopen =>
    by_cases hp : p = q
    · subst hp
      exact hs.openOn hopen name
    · obtain ⟨-, rfl, rfl⟩ := Queue.openOn_eq hopen
      refine hs.update_of_ne hp (by simp) (by simp) ?_
      rw [Card.isBound_record, Card.isBound_setBound, if_neg hp]
  · exact hs

theorem Serves.onQueue (hs : rig.Serves q r c f) (name : Nat) (op : HandleOp)
    (ha : Addresses r.capacity bound) (hb : c.head + r.reserved ≤ bound)
    (hb' : c.head + (step (.onQueue name op) rig).lent q ≤ bound) :
    ∃ r' c' f', (step (.onQueue name op) rig).Serves q r' c' f' ∧
      f.Moves f' (entering q (.onQueue name op) rig) (leaving q (.onQueue name op) rig) ∧
      c'.head = c.head + (entering q (.onQueue name op) rig).length := by
  cases hn : rig.handles name with
  | none =>
    simp only [step, entering, leaving, hn]
    exact ⟨r, c, f, hs, .refl f, rfl⟩
  | some h =>
    simp only [step, hn] at hb'
    simp only [step, entering, leaving, hn]
    by_cases hid : h.queue.channel.id = q
    · rw [if_pos hid, if_pos hid]
      refine hs.act hn hid op ha hb fun r' hr' => ?_
      rwa [lent_eq hr'] at hb'
    · rw [if_neg hid, if_neg hid]
      obtain ⟨hspec, hrest⟩ := Handle.act_frame op h rig.card
      obtain ⟨hring, hbound⟩ := hrest q (Ne.symm hid)
      have hid' : (h.act op rig.card).1.queue.channel.id ≠ q :=
        fun he => hid ((Handle.act_id op h rig.card).symm.trans he)
      exact ⟨r, c, f, hs.update_of_ne hid' hspec hring hbound, .refl f, rfl⟩

theorem Serves.step (hs : rig.Serves q r c f) (op : RigOp) (ha : Addresses r.capacity bound)
    (hb : c.head + r.reserved ≤ bound)
    (hb' : c.head + ((entering q op rig).length + (step op rig).lent q) ≤ bound) :
    ∃ r' c' f', (Rig.step op rig).Serves q r' c' f' ∧
      f.Moves f' (entering q op rig) (leaving q op rig) ∧
      c'.head = c.head + (entering q op rig).length := by
  have hhead := Nat.le_trans (Nat.le_add_right _ _) hb
  cases op with
  | openDevice identifier =>
    exact ⟨r, c, f, hs.of_sameRings (Card.SameRings.openDevice identifier rig.card), .refl f, rfl⟩
  | closeDevice =>
    exact ⟨r, c, f, hs.of_sameRings (Card.SameRings.closeDevice rig.card), .refl f, rfl⟩
  | openQueue name p => exact ⟨r, c, f, hs.openQueue name p, .refl f, rfl⟩
  | onQueue name op => exact hs.onQueue name op ha hb (by omega)
  | push index data header flags =>
    by_cases hq : q = ⟨.rx, index⟩
    · subst hq
      obtain ⟨r', c', f', hs', hm, hc, -⟩ := hs.push data header flags ha (by omega)
      exact ⟨r', c', f', hs', hm, hc⟩
    · rw [entering, if_neg fun h => hq h.1]
      exact ⟨r, c, f, hs.port_of_ne (Ne.symm hq) _, .refl f, rfl⟩
  | pop index =>
    by_cases hq : q = ⟨.tx, index⟩
    · subst hq
      obtain ⟨r', c', f', hs', hm, hc, -⟩ := hs.pop ha hhead
      exact ⟨r', c', f', hs', hm, hc⟩
    · rw [leaving, if_neg hq]
      exact ⟨r, c, f, hs.port_of_ne (Ne.symm hq) _, .refl f, rfl⟩
  | drain index =>
    by_cases hq : q = ⟨.tx, index⟩
    · subst hq
      obtain ⟨r', c', f', hs', hm, hc, -⟩ := hs.drain ha hhead
      exact ⟨r', c', f', hs', hm, hc⟩
    · rw [leaving, if_neg hq]
      exact ⟨r, c, f, hs.port_of_ne (Ne.symm hq) _, .refl f, rfl⟩

theorem lent_le_handedOut (ops : List RigOp) (rig : Rig) : rig.lent q ≤ handedOut q ops rig := by
  cases ops with
  | nil => exact Nat.le_refl _
  | cons op ops => exact Nat.le_max_left _ _

theorem Serves.run {ops : List RigOp} (more : List RigOp) (hs : rig.Serves q r c f)
    (ha : Addresses r.capacity bound) (hb : c.head + handedOut q (ops ++ more) rig ≤ bound) :
    ∃ r' c' f', (Rig.run ops rig).Serves q r' c' f' ∧
      f.Moves f' (entered q ops rig) (left q ops rig) ∧
      c'.head + handedOut q more (Rig.run ops rig) ≤ bound := by
  induction ops generalizing rig r c f with
  | nil => exact ⟨r, c, f, hs, .refl f, hb⟩
  | cons op ops ih =>
    rw [List.cons_append, handedOut, ← Nat.add_max_add_left] at hb
    obtain ⟨hb1, hb2⟩ := Nat.max_le.mp hb
    have hlent := lent_le_handedOut (q := q) (ops ++ more) (Rig.step op rig)
    rw [lent_eq hs.ring] at hb1
    obtain ⟨r', c', f', hs', hm, hc⟩ := hs.step op ha hb1 (by omega)
    have hcap : r'.capacity = r.capacity := by
      rw [← hs'.pictured.capacity_eq, hm.capacity_eq, hs.pictured.capacity_eq]
    obtain ⟨r'', c'', f'', hs'', hm', hb'⟩ := ih hs' (hcap.symm ▸ ha) (by omega)
    exact ⟨r'', c'', f'', hs'', hm.trans hm', hb'⟩

end Rig

end DmaBurst
