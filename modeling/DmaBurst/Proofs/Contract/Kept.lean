import DmaBurst.Proofs.Contract.Calls
import DmaBurst.Proofs.Ring.Window

namespace DmaBurst

inductive Look where
  | get (offset : Nat)
  | iterate
  | getMut (offset : Nat) (change : SlotEdit)

namespace Handle

def outside (direction : Direction) (offset : Nat) (h : Handle) : Bool :=
  h.queue.channel.id.direction = direction && h.burst.any (· ≤ offset)

/-- What comes of a look. One that is outside the burst fails before anything is asked of the
channel, and the guard goes out of scope. -/
def afterLook (h : Handle) : Look → Option HandleOp
  | .get offset => if h.outside .rx offset then some .abandon else none
  | .iterate => none
  | .getMut offset change =>
    if h.outside .tx offset then some .abandon else some (.edit offset change)

def packets (offsets : List Nat) (h : Handle) : List ChannelCall :=
  if h.queue.channel.id.direction = .rx ∧ h.burst.isSome then offsets.map .packet else []

def lookCalls (h : Handle) : Look → List ChannelCall
  | .get offset => if h.outside .rx offset then h.calls .abandon else h.packets [offset]
  | .iterate => h.packets (List.range (h.burst.getD 0))
  | .getMut offset change =>
    if h.outside .tx offset then h.calls .abandon else h.calls (.edit offset change)

end Handle

/-- All that can happen to a rig, the looks at its bursts included. -/
inductive RigUse where
  | op (op : RigOp)
  | look (name : Nat) (look : Look)

def RigUse.name? : RigUse → Option Nat
  | .op (.onQueue name _) => some name
  | .look name _ => some name
  | .op _ => none

namespace Rig

def use : RigUse → Rig → Rig
  | .op op, rig => step op rig
  | .look name look, rig =>
    match (rig.handles name).bind (·.afterLook look) with
    | some op => step (.onQueue name op) rig
    | none => rig

def calls : RigUse → Rig → List ChannelCall
  | .op (.onQueue name op), rig => (rig.handles name).elim [] (·.calls op)
  | .look name look, rig => (rig.handles name).elim [] (·.lookCalls look)
  | .op _, _ => []

def useAll : List RigUse → Rig → Rig
  | [], rig => rig
  | u :: us, rig => useAll us (use u rig)

def asked (name : Nat) : List RigUse → Rig → List ChannelCall
  | [], _ => []
  | u :: us, rig => (if u.name? = some name then calls u rig else []) ++ asked name us (use u rig)

/-- Each handle agrees with its queue, its channel and its ring; the driver's end of a queue is
with one handle at most, and a ring is in no window unless a burst is held on it. -/
structure Kept (rig : Rig) : Prop where
  sane : ∀ {name h}, rig.handles name = some h → h.Sane rig.card
  bound_iff : ∀ q, rig.card.isBound q = true ↔ ∃ name h, rig.handles name = some h ∧ h.Owns q
  unique : ∀ {name name' h h' q}, rig.handles name = some h → rig.handles name' = some h' →
    h.Owns q → h'.Owns q → name = name'
  idle : ∀ {q r}, rig.card.ring? q = some r →
    (∀ name h, rig.handles name = some h → h.queue.channel.id = q → h.burst = none) →
    r.windowOf q.direction = 0
  present : ∀ q, q.index < rig.card.spec.queueCount q.direction → (rig.card.ring? q).isSome

variable {rig : Rig} {card : Card} {h : Handle} {name : Nat}

theorem sane_congr (hs : h.Sane rig.card)
    (hr : card.ring? h.queue.channel.id = rig.card.ring? h.queue.channel.id) : h.Sane card :=
  ⟨hs.coherent, hs.started_iff, fun hb => by rw [hr]; exact hs.ring hb⟩

namespace Kept

theorem of_sameRings (hk : rig.Kept)
    (hc : rig.card.SameRings card ∧ ∀ p, card.isBound p = rig.card.isBound p) :
    Kept { rig with card } := by
  refine ⟨fun hn => sane_congr (hk.sane hn) (hc.1.2 _), fun q => ?_, hk.unique, fun hr hnone => ?_,
    fun q hq => ?_⟩
  · rw [hc.2]
    exact hk.bound_iff q
  · rw [hc.1.2] at hr
    exact hk.idle hr hnone
  · rw [hc.1.2]
    exact hk.present q (hc.1.1 ▸ hq)

theorem port {α : Type} (hk : rig.Kept) (p : QueueId) {F : PacketRing → α × PacketRing}
    (hF : ∀ r, (F r).2.windowOf p.direction = r.windowOf p.direction) :
    Kept { rig with card := (rig.card.withRing p F).2 } := by
  have hring : ∀ q r, (rig.card.withRing p F).2.ring? q = some r →
      ∃ r', rig.card.ring? q = some r' ∧ r.windowOf q.direction = r'.windowOf q.direction := by
    intro q r hr
    rw [rig.card.ring?_withRing] at hr
    split at hr
    · next heq =>
      subst heq
      obtain ⟨r', hr', rfl⟩ := Option.map_eq_some_iff.mp hr
      exact ⟨r', hr', hF r'⟩
    · exact ⟨r, hr, rfl⟩
  have hsome : ∀ q, ((rig.card.withRing p F).2.ring? q).isSome = (rig.card.ring? q).isSome := by
    intro q
    rw [rig.card.ring?_withRing]
    split
    · exact Option.isSome_map
    · rfl
  refine ⟨fun hn => ?_, fun q => ?_, hk.unique, fun {q r} hr hnone => ?_, fun q hq => ?_⟩
  · obtain ⟨hc, hstarted, howned⟩ := hk.sane hn
    refine ⟨hc, hstarted, fun hb => ?_⟩
    obtain ⟨r, hr, hw⟩ := howned hb
    obtain ⟨r', hr'⟩ := Option.isSome_iff_exists.mp ((hsome _).trans (Option.isSome_of_eq_some hr))
    obtain ⟨r'', hr'', hw'⟩ := hring _ _ hr'
    cases hr.symm.trans hr''
    exact ⟨r', hr', hw'.trans hw⟩
  · rw [rig.card.isBound_withRing]
    exact hk.bound_iff q
  · obtain ⟨r', hr', hw⟩ := hring q r hr
    exact hw.trans (hk.idle hr' hnone)
  · rw [hsome]
    exact hk.present q (rig.card.spec_withRing p F ▸ hq)

theorem update_eq_some {handles : Nat → Option Handle} {n : Nat} {g : Handle} :
    Function.update handles name (some h) n = some g ↔
      (n = name ∧ g = h) ∨ (n ≠ name ∧ handles n = some g) := by
  by_cases hn : n = name
  · subst hn
    rw [Function.update_self]
    simp [eq_comm]
  · rw [Function.update_of_ne hn]
    simp [hn]

theorem update (hk : rig.Kept) {p : QueueId} (hid : h.queue.channel.id = p)
    (hspec : card.spec = rig.card.spec)
    (hframe : ∀ q, q ≠ p →
      card.ring? q = rig.card.ring? q ∧ card.isBound q = rig.card.isBound q)
    (hold : ∀ g, rig.handles name = some g → g.queue.channel.id = p)
    (hother : ∀ n g, n ≠ name → rig.handles n = some g → ¬ g.Owns p)
    (hsane : h.Sane card) (hbound : card.isBound p = h.queue.channel.bound)
    (hring : ∃ r, card.ring? p = some r ∧ r.windowOf p.direction = h.burst.getD 0) :
    Kept { card, handles := Function.update rig.handles name (some h) } := by
  obtain ⟨r', hr', hw'⟩ := hring
  have hnew : Function.update rig.handles name (some h) name = some h := Function.update_self ..
  -- The queue that is updated is no other handle's, and the handle has no other queue.
  have hmine : ∀ {n g}, Function.update rig.handles name (some h) n = some g → g.Owns p →
      n = name ∧ g = h := by
    intro n g hg ho
    rcases update_eq_some.mp hg with hself | ⟨hn, hg⟩
    · exact hself
    · exact absurd ho (hother n g hn hg)
  have htheirs : ∀ {n g q}, q ≠ p → g.queue.channel.id = q →
      (Function.update rig.handles name (some h) n = some g ↔ rig.handles n = some g) := by
    intro n g q hq hgid
    rw [update_eq_some]
    constructor
    · rintro (⟨-, rfl⟩ | ⟨-, hg⟩)
      · exact absurd (hgid.symm.trans hid) hq
      · exact hg
    · intro hg
      refine .inr ⟨?_, hg⟩
      rintro rfl
      exact hq (hgid.symm.trans (hold g hg))
  refine ⟨fun {n g} hg => ?_, fun q => ?_, fun {n n' g g' q} hg hg' ho ho' => ?_,
    fun {q r} hr hnone => ?_, fun q hq => ?_⟩
  · rcases update_eq_some.mp hg with ⟨-, rfl⟩ | ⟨hn, hg⟩
    · exact hsane
    · have hs := hk.sane hg
      by_cases hp : g.queue.channel.id = p
      · exact ⟨hs.coherent, hs.started_iff, fun hb => absurd ⟨hp, hb⟩ (hother n g hn hg)⟩
      · exact sane_congr hs (hframe _ hp).1
  · by_cases hp : q = p
    · subst hp
      rw [hbound]
      constructor
      · intro hb
        exact ⟨name, h, hnew, hid, hb⟩
      · rintro ⟨n, g, hg, ho⟩
        obtain ⟨-, rfl⟩ := hmine hg ho
        exact ho.2
    · rw [(hframe q hp).2, hk.bound_iff]
      exact exists₂_congr fun n g => and_congr_left fun ho => (htheirs hp ho.1).symm
  · by_cases hp : q = p
    · subst hp
      exact (hmine hg ho).1.trans (hmine hg' ho').1.symm
    · exact hk.unique ((htheirs hp ho.1).mp hg) ((htheirs hp ho'.1).mp hg') ho ho'
  · by_cases hp : q = p
    · subst hp
      cases hr.symm.trans hr'
      rw [hw', hnone name h hnew hid]
      rfl
    · rw [(hframe q hp).1] at hr
      exact hk.idle hr fun n g hg hgid => hnone n g ((htheirs hp hgid).mpr hg) hgid
  · by_cases hp : q = p
    · subst hp
      rw [hr']
      rfl
    · rw [(hframe q hp).1]
      exact hk.present q (hspec ▸ hq)

theorem openQueue (hk : rig.Kept) (name : Nat) (q : QueueId) :
    (step (.openQueue name q) rig).Kept := by
  rw [step]
  split
  · next hnone hopen =>
    obtain ⟨hr, rfl, rfl⟩ := Queue.openOn_eq hopen
    have hfree := Queue.not_isBound_of_bindRefusal hr
    have hindex : q.index < rig.card.spec.queueCount q.direction := by
      rw [Card.bindRefusal] at hr
      by_contra hn
      rw [if_pos (Nat.not_lt.mp hn)] at hr
      cases hr
    have hnobody : ∀ n g, rig.handles n = some g → ¬ g.Owns q := by
      intro n g hg ho
      exact Bool.false_ne_true (hfree.symm.trans ((hk.bound_iff q).mpr ⟨n, g, hg, ho⟩))
    obtain ⟨r, hring⟩ := Option.isSome_iff_exists.mp (hk.present q hindex)
    have hidle : r.windowOf q.direction = 0 := by
      refine hk.idle hring fun n g hg hid => ?_
      have hc := (hk.sane hg).coherent
      by_contra hb
      have hs := hc.started (Option.isSome_iff_ne_none.mpr hb)
      exact hnobody n g hg ⟨hid, hc.bound_iff.mpr (by simp [hs])⟩
    have hring' : ((rig.card.setBound q true).record (.queueOpened q)).ring? q = some r := by
      rw [Card.ring?_record, Card.ring?_setBound]
      exact hring
    refine hk.update rfl (by simp) (fun p hp => ?_) (fun g hg => ?_)
      (fun n g _ hg => hnobody n g hg) ?_ ?_ ⟨r, hring', hidle⟩
    · rw [Card.ring?_record, Card.ring?_setBound, Card.isBound_record, Card.isBound_setBound,
        if_neg (Ne.symm hp)]
      exact ⟨rfl, rfl⟩
    · cases hnone.symm.trans hg
    · exact ⟨⟨rfl, by simp, fun hn => by cases hn⟩, by simp, fun _ => ⟨r, hring', hidle⟩⟩
    · obtain ⟨line, hl, -⟩ := Option.map_eq_some_iff.mp hring
      rw [Card.isBound_record, Card.isBound_setBound, if_pos rfl, hl]
      rfl
  · exact hk

theorem onQueue (hk : rig.Kept) (name : Nat) (op : HandleOp) :
    (step (.onQueue name op) rig).Kept := by
  rw [step]
  cases hn : rig.handles name with
  | none => exact hk
  | some h =>
    have hs := hk.sane hn
    obtain ⟨hspec, hframe⟩ := Handle.act_frame op h rig.card
    cases hb : h.queue.channel.bound with
    | false =>
      -- Nothing comes of a closed queue, so the handle is put back as it was.
      obtain ⟨hsame, hc, hkept, -⟩ := Handle.act_closed hs.coherent hb op rig.card
      have hkeep := hk.of_sameRings ⟨hc, hkept⟩
      dsimp only
      rwa [hsame, ← hn, Function.update_eq_self]
    | true =>
      have honest := hs.honest op
      have howns : rig.card.isBound h.queue.channel.id = h.queue.channel.bound :=
        ((hk.bound_iff _).mpr ⟨name, h, hn, rfl, hb⟩).trans hb.symm
      have hbound := (ChannelCall.runAll_bound (h.calls op) howns).2
      rw [honest.replay] at hbound
      refine hk.update (Handle.act_id op h rig.card) hspec hframe (fun g hg => ?_)
        (fun n g hne hg ho => ?_) honest.sane hbound (honest.ring hb)
      · cases hn.symm.trans hg
        rfl
      · exact hne (hk.unique hg hn ho ⟨rfl, hb⟩)

theorem step (hk : rig.Kept) (op : RigOp) : (Rig.step op rig).Kept := by
  cases op with
  | openDevice identifier => exact hk.of_sameRings (Card.SameRings.openDevice identifier rig.card)
  | closeDevice => exact hk.of_sameRings (Card.SameRings.closeDevice rig.card)
  | openQueue name q => exact hk.openQueue name q
  | onQueue name op => exact hk.onQueue name op
  | push index data header flags =>
    exact hk.port ⟨.rx, index⟩ fun r => r.exposed_push data header flags
  | pop index => exact hk.port ⟨.tx, index⟩ fun r => r.reserved_pop
  | drain index => exact hk.port ⟨.tx, index⟩ fun r => r.reserved_popAtMost _

theorem use (hk : rig.Kept) (u : RigUse) : (Rig.use u rig).Kept := by
  cases u with
  | op op => exact hk.step op
  | look name look =>
    rw [Rig.use]
    split
    · exact hk.onQueue name _
    · exact hk

theorem useAll (hk : rig.Kept) (us : List RigUse) : (Rig.useAll us rig).Kept := by
  induction us generalizing rig with
  | nil => exact hk
  | cons u us ih => exact ih (hk.use u)

theorem ofCard {spec : CardSpec} (hcard : Card.create spec = .ok card) :
    (Rig.ofCard card).Kept := by
  have hnew : ∀ q line, card.line? q = some line →
      line.bound = false ∧ line.ring.windowOf q.direction = 0 := by
    intro q line hl
    obtain ⟨-, r, hr, hline⟩ := Card.create_line hcard (Card.create_index hcard hl)
    cases hl.symm.trans hline
    obtain ⟨r', hr', hres, hexp, -⟩ :=
      PacketRing.create_eq (PacketRing.pos_of_create hr) spec.slotSize spec.headerSize
    cases hr.symm.trans hr'
    refine ⟨rfl, ?_⟩
    cases q.direction
    · exact hexp
    · exact hres
  refine ⟨(fun hn => by cases hn), fun q => ?_, (fun hn => by cases hn), fun {q r} hr _ => ?_,
    fun q hq => ?_⟩
  · constructor
    · intro hb
      rw [Card.isBound] at hb
      cases hl : (Rig.ofCard card).card.line? q with
      | none =>
        rw [hl] at hb
        cases hb
      | some line =>
        rw [hl] at hb
        exact absurd ((hnew q line hl).1.symm.trans hb) Bool.false_ne_true
    · rintro ⟨_, _, hn, -⟩
      cases hn
  · obtain ⟨line, hl, rfl⟩ := Option.map_eq_some_iff.mp hr
    exact (hnew q line hl).2
  · rw [Rig.ofCard, Card.create_spec hcard] at hq
    obtain ⟨-, r, -, hline⟩ := Card.create_line hcard hq
    rw [Rig.ofCard, Card.ring?, hline]
    rfl

end Kept

def Honest (name : Nat) (u : RigUse) (h : Handle) (rig : Rig) : Prop :=
  ∃ h', (use u rig).handles name = some h' ∧
    ChannelCall.runAll (calls u rig) h.queue.channel rig.card =
      (.ok (), h'.queue.channel, (use u rig).card) ∧
    (calls u rig).foldlM ChannelCall.next h.burst.isSome = some h'.burst.isSome

theorem honest_onQueue (hk : rig.Kept) (hn : rig.handles name = some h) (op : HandleOp) :
    ∃ h', (step (.onQueue name op) rig).handles name = some h' ∧
      ChannelCall.runAll (h.calls op) h.queue.channel rig.card =
        (.ok (), h'.queue.channel, (step (.onQueue name op) rig).card) ∧
      (h.calls op).foldlM ChannelCall.next h.burst.isSome = some h'.burst.isSome := by
  have honest := (hk.sane hn).honest op
  rw [step, hn]
  exact ⟨_, Function.update_self .., honest.replay, honest.contract⟩

theorem honest_packets (hs : h.Sane card) {offsets : List Nat}
    (ho : h.queue.channel.id.direction = .rx → ∀ len, h.burst = some len →
      ∀ offset ∈ offsets, offset < len) :
    ChannelCall.runAll (h.packets offsets) h.queue.channel card =
        (.ok (), h.queue.channel, card) ∧
      (h.packets offsets).foldlM ChannelCall.next h.burst.isSome = some h.burst.isSome := by
  rw [Handle.packets]
  split
  · next hlook =>
    obtain ⟨hd, hb⟩ := hlook
    obtain ⟨queue, burst⟩ := h
    obtain ⟨len, rfl⟩ := Option.isSome_iff_exists.mp hb
    obtain ⟨r, hr, hl⟩ := hs.lends
    have hlook : ∀ call ∈ offsets.map ChannelCall.packet,
        call.run queue.channel card = (.ok (), queue.channel, card) := by
      intro call hm
      obtain ⟨offset, hmem, rfl⟩ := List.mem_map.mp hm
      have hin : offset < r.windowOf queue.channel.id.direction :=
        hl.windowOf_eq ▸ ho hd len rfl offset hmem
      exact ChannelCall.run_look (g := ⟨.rx, len, false⟩) hd.symm hr hl.bound hin
    constructor
    · rw [← List.append_nil (offsets.map _), ChannelCall.runAll_append [] hlook]
      rfl
    · induction offsets with
      | nil => rfl
      | cons offset offsets ih =>
        rw [List.map_cons, List.foldlM_cons]
        exact ih (fun hd len hb o hm => ho hd len hb o (List.mem_cons_of_mem _ hm)) fun call hm =>
          hlook call (List.mem_cons_of_mem _ hm)
  · exact ⟨rfl, rfl⟩

theorem honest_use (hk : rig.Kept) (hn : rig.handles name = some h) {u : RigUse}
    (hu : u.name? = some name) : Honest name u h rig := by
  cases u with
  | op op =>
    cases op with
    | onQueue n op =>
      cases hu
      rw [Honest, calls, hn]
      exact honest_onQueue hk hn op
    | openDevice | closeDevice | openQueue | push | pop | drain => cases hu
  | look n look =>
    cases hu
    cases look with
    | get offset =>
      rw [Honest, calls, use, hn, Option.elim_some, Option.bind_some, Handle.afterLook,
        Handle.lookCalls]
      by_cases hout : h.outside .rx offset
      · rw [if_pos hout, if_pos hout]
        exact honest_onQueue hk hn .abandon
      · rw [if_neg hout, if_neg hout]
        refine ⟨h, hn, honest_packets (hk.sane hn) fun hd len hb o ho => ?_⟩
        rw [List.mem_singleton.mp ho]
        by_contra hlen
        exact hout (by simp [Handle.outside, hd, hb, Nat.not_lt.mp hlen])
    | iterate =>
      rw [Honest, calls, use, hn]
      refine ⟨h, hn, honest_packets (hk.sane hn) fun hd len hb o ho => ?_⟩
      rw [hb] at ho
      exact List.mem_range.mp ho
    | getMut offset change =>
      rw [Honest, calls, use, hn, Option.elim_some, Option.bind_some, Handle.afterLook,
        Handle.lookCalls]
      by_cases hout : h.outside .tx offset
      · rw [if_pos hout, if_pos hout]
        exact honest_onQueue hk hn .abandon
      · rw [if_neg hout, if_neg hout]
        exact honest_onQueue hk hn (.edit offset change)

theorem use_of_none (hn : rig.handles name = none) {u : RigUse} (hu : u.name? = some name) :
    use u rig = rig ∧ calls u rig = [] := by
  cases u with
  | op op =>
    cases op with
    | onQueue n op =>
      cases hu
      rw [use, calls, step, hn]
      exact ⟨rfl, rfl⟩
    | openDevice | closeDevice | openQueue | push | pop | drain => cases hu
  | look n look =>
    cases hu
    rw [use, calls, hn]
    exact ⟨rfl, rfl⟩

def lends (name : Nat) (rig : Rig) : Bool :=
  (rig.handles name).any (·.burst.isSome)

theorem handles_use_of_ne {u : RigUse} (hu : u.name? ≠ some name) :
    (use u rig).handles name = rig.handles name ∨
      rig.handles name = none ∧ ∃ q,
        (use u rig).handles name = some ⟨{ id := q, channel := { id := q } }, none⟩ := by
  cases u with
  | op op =>
    cases op with
    | openQueue n q =>
      rw [use, step]
      split
      · next hnone hopen =>
        obtain ⟨-, rfl, -⟩ := Queue.openOn_eq hopen
        by_cases hn : name = n
        · subst hn
          exact .inr ⟨hnone, q, Function.update_self ..⟩
        · exact .inl (Function.update_of_ne hn ..)
      · exact .inl rfl
    | onQueue n op => exact .inl (handles_onQueue_of_ne op fun hn => hu (congrArg some hn))
    | openDevice | closeDevice | push | pop | drain => exact .inl rfl
  | look n look =>
    rw [use]
    split
    · exact .inl (handles_onQueue_of_ne _ fun hn => hu (congrArg some hn))
    · exact .inl rfl

theorem lends_use_of_ne {u : RigUse} (hu : u.name? ≠ some name) :
    (use u rig).lends name = rig.lends name := by
  rcases handles_use_of_ne hu with hsame | ⟨hnone, q, hnew⟩
  · rw [lends, lends, hsame]
  · rw [lends, lends, hnone, hnew]
    rfl

/-- The calls on the channel of one queue keep the contract all the way. -/
theorem contract_asked (hk : rig.Kept) (name : Nat) (us : List RigUse) :
    (asked name us rig).foldlM ChannelCall.next (rig.lends name) =
      some ((useAll us rig).lends name) := by
  induction us generalizing rig with
  | nil => rfl
  | cons u us ih =>
    have hfirst : (if u.name? = some name then calls u rig else []).foldlM ChannelCall.next
        (rig.lends name) = some ((use u rig).lends name) := by
      by_cases hu : u.name? = some name
      · rw [if_pos hu]
        cases hn : rig.handles name with
        | none =>
          obtain ⟨huse, hcalls⟩ := use_of_none hn hu
          rw [huse, hcalls]
          rfl
        | some h =>
          obtain ⟨h', hn', -, hcontract⟩ := honest_use hk hn hu
          rw [lends, lends, hn, hn']
          exact hcontract
      · rw [if_neg hu, lends_use_of_ne hu]
        rfl
    rw [asked, List.foldlM_append, hfirst]
    exact ih (hk.use u)

/-- Queues use the channels below as their contract says: bursts are lent one at a time and put back
once, on every way out of their guards, and no call faults. -/
theorem keeps_contract {spec : CardSpec} {card : Card} (hcard : Card.create spec = .ok card)
    (us : List RigUse) : ∃ rig, useAll us (ofCard card) = rig ∧
      (∀ name, (asked name us (ofCard card)).foldlM ChannelCall.next false =
        some (rig.lends name)) ∧
      (∀ u name h, rig.handles name = some h → u.name? = some name →
        ∃ h', (use u rig).handles name = some h' ∧
          ChannelCall.runAll (calls u rig) h.queue.channel rig.card =
            (.ok (), h'.queue.channel, (use u rig).card)) ∧
      (∀ name h, rig.handles name = some h →
        (h.burst = none → h.queue.channel.window = none) ∧
        (h.queue.state = .started ↔ h.queue.channel.started = true) ∧
        (h.queue.state = .closed ↔ h.queue.channel.bound = false)) ∧
      (∀ q r, rig.card.ring? q = some r →
        (∀ name h, rig.handles name = some h → h.queue.channel.id = q → h.burst = none) →
        r.windowOf q.direction = 0) ∧
      ∀ q, rig.card.isBound q = true ↔
        ∃ name h, rig.handles name = some h ∧ h.queue.channel.id = q ∧
          h.queue.channel.bound = true := by
  have hk := (Kept.ofCard hcard).useAll us
  refine ⟨_, rfl, fun name => contract_asked (Kept.ofCard hcard) name us, ?_, ?_,
    fun q r => hk.idle, hk.bound_iff⟩
  · intro u name h hn hu
    obtain ⟨h', hn', hreplay, -⟩ := honest_use hk hn hu
    exact ⟨h', hn', hreplay⟩
  · intro name h hn
    have hs := hk.sane hn
    refine ⟨fun hb => hs.coherent.window_eq.trans hb, hs.started_iff, ?_⟩
    have hb := hs.coherent.bound_iff
    rw [← Bool.not_eq_true, hb, not_not]

/-- Bursts that end with a slot outside the burst, a count beyond it, and as they should. -/
def clumsy : List RigUse :=
  [.op (.openQueue 0 ⟨.tx, 0⟩), .op (.onQueue 0 .start), .op (.onQueue 0 (.acquire 2)),
    .look 0 (.getMut 5 (.setDataLen 1)), .op (.onQueue 0 (.acquire 3)),
    .op (.onQueue 0 (.commit 4)), .op (.onQueue 0 (.acquire 1)), .op (.onQueue 0 .release),
    .op (.onQueue 0 (.acquire 1)), .look 0 (.getMut 0 (.setDataLen 1))]

theorem clumsy_keeps_contract :
    ∃ card h, Card.create { rxQueues := 0, txQueues := 1, ringCapacity := 3, slotSize := 2 } =
        .ok card ∧
      asked 0 clumsy (ofCard card) = [.start, .get 2, .put 0, .get 3, .put 0, .get 1, .slot 0,
        .put 1, .get 1, .edit 0 (.setDataLen 1)] ∧
      (asked 0 clumsy (ofCard card)).foldlM ChannelCall.next false = some true ∧
      (useAll clumsy (ofCard card)).handles 0 = some h ∧
      ∃ h', (use (.op (.onQueue 0 .abandon)) (useAll clumsy (ofCard card))).handles 0 = some h' ∧
        ChannelCall.runAll (calls (.op (.onQueue 0 .abandon)) (useAll clumsy (ofCard card)))
          h.queue.channel (useAll clumsy (ofCard card)).card =
            (.ok (), h'.queue.channel,
              (use (.op (.onQueue 0 .abandon)) (useAll clumsy (ofCard card))).card) := by
  have hcard : Card.create { rxQueues := 0, txQueues := 1, ringCapacity := 3, slotSize := 2 } =
      .ok _ := rfl
  obtain ⟨rig, hrig, hcontract, hreplay, -⟩ := keeps_contract hcard clumsy
  subst hrig
  refine ⟨_, _, hcard, rfl, hcontract 0, rfl, ?_⟩
  exact hreplay (.op (.onQueue 0 .abandon)) 0 _ rfl rfl

end Rig

end DmaBurst
