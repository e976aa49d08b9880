import DmaBurst.Card.Basic

namespace DmaBurst.Card

variable {α : Type} {q q' : QueueId} {card card' : Card}

theorem lend_of_lt {index : Nat} {lines : Array Line} (h : index < lines.size)
    (f : Line → α × Line) :
    lend index f lines = ((f lines[index]).1, lines.set index (f lines[index]).2) := by
  simp only [lend, detach, dif_pos h, Array.setIfInBounds, Array.size_set, Array.set_set]

theorem lend_of_le {index : Nat} {lines : Array Line} (h : lines.size ≤ index)
    (f : Line → α × Line) : lend index f lines = ((f default).1, lines) := by
  simp only [lend, detach, dif_neg (Nat.not_lt.mpr h), Array.setIfInBounds]

theorem getElem?_lend (index i : Nat) (f : Line → α × Line) (lines : Array Line) :
    (lend index f lines).2[i]? =
      if index = i then lines[i]?.map fun line => (f line).2 else lines[i]? := by
  by_cases h : index < lines.size
  · rw [lend_of_lt h, Array.getElem?_set]
    by_cases hi : index = i
    · subst hi
      simp [h]
    · simp [hi]
  · rw [lend_of_le (Nat.not_lt.mp h)]
    by_cases hi : index = i
    · subst hi
      simp [Nat.not_lt.mp h]
    · simp [hi]

theorem line?_withLine (q q' : QueueId) (f : Line → α × Line) (card : Card) :
    (card.withLine q f).2.line? q' =
      if q = q' then (card.line? q').map fun line => (f line).2 else card.line? q' := by
  obtain ⟨direction, index⟩ := q
  obtain ⟨direction', index'⟩ := q'
  cases direction <;> cases direction' <;>
    simp [withLine, line?, lines, getElem?_lend]

theorem withLine_fst {line : Line} (h : card.line? q = some line) (f : Line → α × Line) :
    (card.withLine q f).1 = (f line).1 := by
  obtain ⟨direction, index⟩ := q
  cases direction <;>
  · obtain ⟨hi, hl⟩ := Array.getElem?_eq_some_iff.mp h
    simp only [lines] at hi hl
    simp only [withLine, lend_of_lt hi, hl]

theorem exists_withLine_fst (q : QueueId) (f : Line → α × Line) (card : Card) :
    ∃ line, (card.withLine q f).1 = (f line).1 := by
  obtain ⟨direction, index⟩ := q
  cases h : card.line? ⟨direction, index⟩ with
  | some line => exact ⟨line, withLine_fst h f⟩
  | none =>
    have hs := Array.getElem?_eq_none_iff.mp h
    refine ⟨default, ?_⟩
    cases direction <;>
    · simp only [lines] at hs
      simp only [withLine, lend_of_le hs]

theorem withLine_frame (q : QueueId) (f : Line → α × Line) (card : Card) :
    (card.withLine q f).2.spec = card.spec ∧
      (card.withLine q f).2.events = card.events ∧
      (card.withLine q f).2.registers = card.registers ∧
      (card.withLine q f).2.deviceOpen = card.deviceOpen := by
  obtain ⟨direction, index⟩ := q
  cases direction <;> exact ⟨rfl, rfl, rfl, rfl⟩

def ring? (card : Card) (q : QueueId) : Option PacketRing :=
  (card.line? q).map Line.ring

def isBound (card : Card) (q : QueueId) : Bool :=
  (card.line? q).any Line.bound

theorem ring?_withRing (q q' : QueueId) (f : PacketRing → α × PacketRing) (card : Card) :
    (card.withRing q f).2.ring? q' =
      if q = q' then (card.ring? q').map fun r => (f r).2 else card.ring? q' := by
  rw [ring?, withRing, line?_withLine]
  split
  · cases h : card.line? q' <;> simp [ring?, h]
  · rfl

theorem isBound_withRing (q q' : QueueId) (f : PacketRing → α × PacketRing) (card : Card) :
    (card.withRing q f).2.isBound q' = card.isBound q' := by
  rw [isBound, withRing, line?_withLine]
  split
  · cases h : card.line? q' <;> simp [isBound, h]
  · rfl

theorem withRing_fst {r : PacketRing} (h : card.ring? q = some r)
    (f : PacketRing → α × PacketRing) : (card.withRing q f).1 = (f r).1 := by
  obtain ⟨line, hl, rfl⟩ := Option.map_eq_some_iff.mp h
  rw [withRing, withLine_fst hl]

theorem exists_withRing_fst (q : QueueId) (f : PacketRing → α × PacketRing) (card : Card) :
    ∃ r, (card.withRing q f).1 = (f r).1 := by
  obtain ⟨line, hl⟩ := exists_withLine_fst q (fun line =>
    ((f line.ring).1, { line with ring := (f line.ring).2 })) card
  exact ⟨line.ring, hl⟩

def setRing (q : QueueId) (r : PacketRing) (card : Card) : Card :=
  (card.withRing q fun _ => ((), r)).2

theorem withRing_snd {r : PacketRing} (h : card.ring? q = some r)
    (f : PacketRing → α × PacketRing) : (card.withRing q f).2 = card.setRing q (f r).2 := by
  obtain ⟨line, hl, rfl⟩ := Option.map_eq_some_iff.mp h
  obtain ⟨direction, index⟩ := q
  cases direction <;>
  · obtain ⟨hi, hline⟩ := Array.getElem?_eq_some_iff.mp hl
    simp only [lines] at hi hline
    simp only [setRing, withRing, withLine, lend_of_lt hi, hline]

theorem setRing_self {r : PacketRing} (h : card.ring? q = some r) : card.setRing q r = card := by
  obtain ⟨line, hl, rfl⟩ := Option.map_eq_some_iff.mp h
  obtain ⟨direction, index⟩ := q
  cases direction <;>
  · obtain ⟨hi, hline⟩ := Array.getElem?_eq_some_iff.mp hl
    simp only [lines] at hi hline
    simp only [setRing, withRing, withLine, lend_of_lt hi, ← hline]
    congr
    exact Array.set_getElem_self hi

theorem withRing_snd_of_id {f : PacketRing → α × PacketRing} (h : ∀ r, (f r).2 = r) :
    (card.withRing q f).2 = card := by
  cases hr : card.ring? q with
  | some r => rw [withRing_snd hr, h, setRing_self hr]
  | none =>
    have hl := Option.map_eq_none_iff.mp hr
    obtain ⟨direction, index⟩ := q
    cases direction <;>
    · have hs := Array.getElem?_eq_none_iff.mp hl
      simp only [lines] at hs
      simp only [withRing, withLine, lend_of_le hs]

theorem ring?_setRing {r : PacketRing} (h : card.ring? q = some r) (r' : PacketRing) :
    (card.setRing q r').ring? q' = if q = q' then some r' else card.ring? q' := by
  rw [setRing, ring?_withRing]
  split
  · next hq =>
    rw [← hq, h]
    rfl
  · rfl

/-- The card with what its rings hold left out. -/
def withoutRings (card : Card) : Card :=
  let blank (line : Line) : Line := { line with ring := default }
  { card with rx := card.rx.map blank, tx := card.tx.map blank }

theorem map_lend {β : Type} (g : Line → β) {f : Line → α × Line} (h : ∀ line, g (f line).2 = g line)
    (index : Nat) (lines : Array Line) : (lend index f lines).2.map g = lines.map g := by
  refine Array.ext_getElem? fun i => ?_
  rw [Array.getElem?_map, Array.getElem?_map, getElem?_lend]
  split
  · rw [Option.map_map]
    exact congrArg (Option.map · lines[i]?) (funext h)
  · rfl

theorem withoutRings_withRing (q : QueueId) (f : PacketRing → α × PacketRing) (card : Card) :
    (card.withRing q f).2.withoutRings = card.withoutRings := by
  obtain ⟨direction, index⟩ := q
  cases direction <;> simp only [withRing, withLine, withoutRings, map_lend, implies_true]

theorem eq_of_rings (h : card'.withoutRings = card.withoutRings)
    (hr : ∀ q, card'.ring? q = card.ring? q) : card' = card := by
  have hlines : ∀ direction, card'.lines direction = card.lines direction := by
    intro direction
    have hblank : (card'.lines direction).map (fun line => { line with ring := default }) =
        (card.lines direction).map (fun line => { line with ring := default }) := by
      cases direction with
      | rx => exact congrArg Card.rx h
      | tx => exact congrArg Card.tx h
    refine Array.ext_getElem? fun i => ?_
    have hring := hr ⟨direction, i⟩
    have hline := congrArg (·[i]?) hblank
    simp only [Array.getElem?_map] at hline
    simp only [ring?, line?] at hring
    cases hl : (card.lines direction)[i]? with
    | none =>
      rw [hl] at hline
      exact Option.map_eq_none_iff.mp hline
    | some line =>
      obtain ⟨line', hl', hblank'⟩ := Option.map_eq_some_iff.mp (hline.trans (congrArg _ hl))
      rw [hl, hl'] at hring
      obtain ⟨ring, bound, endTaken⟩ := line
      obtain ⟨ring', bound', endTaken'⟩ := line'
      cases hblank'
      cases hring
      exact hl'
  obtain ⟨spec, rx, tx, registers, events, deviceOpen⟩ := card
  obtain ⟨spec', rx', tx', registers', events', deviceOpen'⟩ := card'
  cases hlines .rx
  cases hlines .tx
  cases h
  rfl

@[simp] theorem spec_withRing (q : QueueId) (f : PacketRing → α × PacketRing) (card : Card) :
    (card.withRing q f).2.spec = card.spec :=
  (withLine_frame q _ card).1

@[simp] theorem ring?_setBound (q q' : QueueId) (bound : Bool) (card : Card) :
    (card.setBound q bound).ring? q' = card.ring? q' := by
  rw [ring?, setBound, line?_withLine]
  split
  · cases h : card.line? q' <;> simp [ring?, h]
  · rfl

theorem isBound_setBound (q q' : QueueId) (bound : Bool) (card : Card) :
    (card.setBound q bound).isBound q' =
      if q = q' then bound && (card.line? q').isSome else card.isBound q' := by
  rw [isBound, setBound, line?_withLine]
  split
  · cases h : card.line? q' <;> simp
  · rfl

@[simp] theorem spec_setBound (q : QueueId) (bound : Bool) (card : Card) :
    (card.setBound q bound).spec = card.spec :=
  (withLine_frame q _ card).1

@[simp] theorem ring?_record (e : Event) (card : Card) (q : QueueId) :
    (card.record e).ring? q = card.ring? q := by
  cases h : q.direction <;> simp [ring?, line?, lines, record, h]

@[simp] theorem isBound_record (e : Event) (card : Card) (q : QueueId) :
    (card.record e).isBound q = card.isBound q := by
  cases h : q.direction <;> simp [isBound, line?, lines, record, h]

@[simp] theorem spec_record (e : Event) (card : Card) : (card.record e).spec = card.spec := rfl

@[simp] theorem deviceOpen_withRing (q : QueueId) (f : PacketRing → α × PacketRing) (card : Card) :
    (card.withRing q f).2.deviceOpen = card.deviceOpen :=
  (withLine_frame q _ card).2.2.2

@[simp] theorem deviceOpen_setBound (q : QueueId) (bound : Bool) (card : Card) :
    (card.setBound q bound).deviceOpen = card.deviceOpen :=
  (withLine_frame q _ card).2.2.2

@[simp] theorem deviceOpen_record (e : Event) (card : Card) :
    (card.record e).deviceOpen = card.deviceOpen := rfl

theorem getElem?_of_mapM_eq_ok {ε β γ : Type} {f : β → Except ε γ} {bs : List β} {cs : List γ}
    (h : bs.mapM f = .ok cs) {k : Nat} {b : β} (hk : bs[k]? = some b) :
    ∃ c, f b = .ok c ∧ cs[k]? = some c := by
  induction bs generalizing cs k with
  | nil => cases hk
  | cons first rest ih =>
    rw [List.mapM_cons] at h
    cases hf : f first with
    | error e =>
      rw [hf] at h
      cases h
    | ok c =>
      cases hr : rest.mapM f with
      | error e =>
        rw [hf, hr] at h
        cases h
      | ok tail =>
        rw [hf, hr] at h
        cases h
        cases k with
        | zero =>
          cases hk
          exact ⟨c, hf, rfl⟩
        | succ k => exact ih hr hk

theorem length_of_mapM_eq_ok {ε β γ : Type} {f : β → Except ε γ} {bs : List β} {cs : List γ}
    (h : bs.mapM f = .ok cs) : cs.length = bs.length := by
  induction bs generalizing cs with
  | nil =>
    cases h
    rfl
  | cons first rest ih =>
    rw [List.mapM_cons] at h
    cases hf : f first with
    | error e =>
      rw [hf] at h
      cases h
    | ok c =>
      cases hr : rest.mapM f with
      | error e =>
        rw [hf, hr] at h
        cases h
      | ok tail =>
        rw [hf, hr] at h
        cases h
        exact congrArg Nat.succ (ih hr)

theorem getElem?_concat_cases {β : Type} {bs : List β} {j : Nat} {b c : β}
    (h : (bs ++ [b])[j]? = some c) : bs[j]? = some c ∨ j = bs.length ∧ c = b := by
  rw [List.getElem?_append] at h
  split at h
  · exact .inl h
  · next hj =>
    rw [List.getElem?_singleton] at h
    split at h
    · exact .inr ⟨by omega, (Option.some.inj h).symm⟩
    · cases h

theorem getElem?_set_cases {β : Type} {bs : List β} {i j : Nat} {b c : β}
    (h : (bs.set i b)[j]? = some c) : j = i ∧ c = b ∨ i ≠ j ∧ bs[j]? = some c := by
  rw [List.getElem?_set] at h
  split at h
  · next hij =>
    split at h
    · exact .inl ⟨hij.symm, (Option.some.inj h).symm⟩
    · cases h
  · next hij => exact .inr ⟨hij, h⟩

theorem create_eq {spec : CardSpec} (h : create spec = .ok card) :
    ∃ rx tx, createLines spec .rx = .ok rx ∧ createLines spec .tx = .ok tx ∧
      card = { spec, rx := rx.toArray, tx := tx.toArray, events := #[], deviceOpen := false
               registers := Array.replicate spec.components.length
                 (Array.replicate spec.registersPerComponent 0) } := by
  rw [create] at h
  cases hrx : createLines spec .rx with
  | error e =>
    rw [hrx] at h
    cases h
  | ok rx =>
    cases htx : createLines spec .tx with
    | error e =>
      rw [hrx, htx] at h
      cases h
    | ok tx =>
      rw [hrx, htx] at h
      cases h
      exact ⟨rx, tx, rfl, rfl, rfl⟩

theorem create_line {spec : CardSpec} (h : create spec = .ok card)
    (hq : q.index < spec.queueCount q.direction) :
    card.spec = spec ∧ ∃ r, PacketRing.create (spec.capacityOf q) spec.slotSize spec.headerSize =
      .ok r ∧ card.line? q = some { ring := r } := by
  have hlines : ∀ {lines}, createLines spec q.direction = .ok lines →
      ∃ r, PacketRing.create (spec.capacityOf q) spec.slotSize spec.headerSize = .ok r ∧
        lines[q.index]? = some { ring := r } := by
    intro lines hl
    obtain ⟨line, hline, hget⟩ := getElem?_of_mapM_eq_ok hl (List.getElem?_range hq)
    change (PacketRing.create (spec.capacityOf q) spec.slotSize spec.headerSize >>=
      fun ring => .ok { ring }) = Except.ok line at hline
    cases hr : PacketRing.create (spec.capacityOf q) spec.slotSize spec.headerSize with
    | error e =>
      rw [hr] at hline
      cases hline
    | ok r =>
      rw [hr] at hline
      cases hline
      exact ⟨r, rfl, hget⟩
  obtain ⟨rx, tx, hrx, htx, rfl⟩ := create_eq h
  refine ⟨rfl, ?_⟩
  cases hd : q.direction with
  | rx =>
    obtain ⟨r, hr, hget⟩ := hlines (hd ▸ hrx)
    exact ⟨r, hr, by simpa [line?, lines, hd] using hget⟩
  | tx =>
    obtain ⟨r, hr, hget⟩ := hlines (hd ▸ htx)
    exact ⟨r, hr, by simpa [line?, lines, hd] using hget⟩

theorem create_spec {spec : CardSpec} (h : create spec = .ok card) : card.spec = spec := by
  obtain ⟨_, _, -, -, rfl⟩ := create_eq h
  rfl

theorem create_index {spec : CardSpec} (h : create spec = .ok card) {line : Line}
    (hl : card.line? q = some line) : q.index < spec.queueCount q.direction := by
  have hsize : ∀ {direction lines}, createLines spec direction = .ok lines →
      lines.length = spec.queueCount direction :=
    fun hlines => (length_of_mapM_eq_ok hlines).trans List.length_range
  obtain ⟨rx, tx, hrx, htx, rfl⟩ := create_eq h
  obtain ⟨hi, -⟩ := Array.getElem?_eq_some_iff.mp hl
  cases hd : q.direction with
  | rx => simpa [lines, hd, hsize hrx] using hi
  | tx => simpa [lines, hd, hsize htx] using hi

end DmaBurst.Card
