import DmaBurst.Proofs.Run.Alone

namespace DmaBurst.Drive

open Function

section Turns

variable {ω : Type} [Worker ω] {f f' f'' : Floor ω} {s : Station ω} {r : PacketRing}
  {x : Station ω × PacketRing} {i : Nat}

def turn (i : Nat) (f : Floor ω) : Floor ω :=
  match f.stations[i]? with
  | none => f
  | some s =>
    let (s, abort, card) := step false s f.abort f.card
    { stations := f.stations.set i s, abort, card }

def turns (order : List Nat) (f : Floor ω) : Floor ω :=
  order.foldl (fun f i => turn i f) f

def place? (i : Nat) (f : Floor ω) : Option (Station ω × PacketRing) := do
  let s ← f.stations[i]?
  let r ← f.card.ring? s.id
  return (s, r)

theorem place?_eq_some :
    place? i f = some x ↔ f.stations[i]? = some x.1 ∧ f.card.ring? x.1.id = some x.2 := by
  obtain ⟨s, r⟩ := x
  simp only [place?, Option.bind_eq_bind, Option.pure_def, Option.bind_eq_some_iff,
    Option.some.injEq, Prod.mk.injEq]
  constructor
  · rintro ⟨s', hs, r', hr, rfl, rfl⟩
    exact ⟨hs, hr⟩
  · rintro ⟨hs, hr⟩
    exact ⟨s, hs, r, hr, rfl, rfl⟩

/-- A floor on which no worker has failed, with a queue and a ring of its own for each worker. -/
structure Calm (f : Floor ω) : Prop where
  abort_eq : f.abort = false
  apart : (f.stations.map Station.id).Nodup
  ring : ∀ s ∈ f.stations, (f.card.ring? s.id).isSome

structure Framed (f f' : Floor ω) : Prop where
  ids : f'.stations.map Station.id = f.stations.map Station.id
  card : f'.card.withoutRings = f.card.withoutRings
  elsewhere : ∀ q ∉ f.stations.map Station.id, f'.card.ring? q = f.card.ring? q

theorem Framed.refl (f : Floor ω) : Framed f f :=
  ⟨rfl, rfl, fun _ _ => rfl⟩

theorem Framed.trans (h : Framed f f') (h' : Framed f' f'') : Framed f f'' :=
  ⟨h'.ids.trans h.ids, h'.card.trans h.card,
    fun q hq => (h'.elsewhere q (h.ids ▸ hq)).trans (h.elsewhere q hq)⟩

theorem pollOn_eq {w : ω} {card : Card} (hr : card.ring? (Worker.queue w).channel.id = some r)
    (flags : List Bool) :
    pollOn flags w card = ((Worker.poll flags w r).1, (Worker.poll flags w r).2.1,
      card.setRing (Worker.queue w).channel.id (Worker.poll flags w r).2.2) := by
  let F (r : PacketRing) := (((Worker.poll flags w r).1, (Worker.poll flags w r).2.1),
    (Worker.poll flags w r).2.2)
  have hfst := Card.withRing_fst hr F
  have hanswer : (pollOn flags w card).1 = (Worker.poll flags w r).1 := congrArg Prod.fst hfst
  have hworker : (pollOn flags w card).2.1 = (Worker.poll flags w r).2.1 := congrArg Prod.snd hfst
  exact Prod.ext hanswer (Prod.ext hworker (Card.withRing_snd hr F))

theorem step_eq {card : Card} (hr : card.ring? s.id = some r) :
    step false s false card = ((alone (s, r)).1, s.ended.isNone && failed (alone (s, r)).1,
      card.setRing s.id (alone (s, r)).2) := by
  rw [step]
  cases h : s.ended with
  | some answer =>
    rw [alone_of_ended (by rw [h]; rfl), Card.setRing_self hr]
    rfl
  | none =>
    rw [alone_of_polled h, if_neg (by simp), pollAt_card, pollOn_eq hr]
    rfl

theorem turn_of_none (h : f.stations[i]? = none) : turn i f = f := by
  rw [turn, h]

theorem Calm.turn_eq (h : Calm f) (hx : place? i f = some x) :
    turn i f = ⟨f.stations.set i (alone x).1, x.1.ended.isNone && failed (alone x).1,
      f.card.setRing x.1.id (alone x).2⟩ := by
  obtain ⟨hs, hr⟩ := place?_eq_some.mp hx
  rw [turn, hs]
  simp only [h.abort_eq, step_eq hr]

theorem Calm.exists_place? (h : Calm f) (hs : f.stations[i]? = some s) :
    ∃ r, place? i f = some (s, r) := by
  obtain ⟨r, hr⟩ := Option.isSome_iff_exists.mp (h.ring s (List.mem_of_getElem? hs))
  exact ⟨r, place?_eq_some.mpr ⟨hs, hr⟩⟩

theorem place?_of_none (h : f.stations[i]? = none) : place? i f = none := by
  rw [place?, h]
  rfl

theorem turns_of_ended (hs : f.stations[i]? = some s) (he : s.ended.isSome) (order : List Nat) :
    (turns order f).stations[i]? = some s := by
  induction order generalizing f with
  | nil => exact hs
  | cons k order ih =>
    refine ih (f := turn k f) ?_
    rw [turn]
    split
    · exact hs
    · next s' hs' =>
      rw [List.getElem?_set]
      split
      · next hk =>
        rw [hk] at hs'
        cases hs'.symm.trans hs
        have hlt := (List.getElem?_eq_some_iff.mp hs).1
        rw [hk, if_pos hlt, step, if_pos he]
      · exact hs

theorem Calm.not_failed (h : Calm f) {order : List Nat}
    (hdone : ∀ s ∈ (turns order (turn i f)).stations, ∃ report, s.ended = some (.ok report))
    (hx : place? i f = some x) : failed (alone x).1 = false := by
  by_contra hn
  have hfailed : failed (alone x).1 = true := Bool.eq_true_of_not_eq_false hn
  have hs : (turn i f).stations[i]? = some (alone x).1 := by
    rw [h.turn_eq hx]
    exact List.getElem?_set_self (List.getElem?_eq_some_iff.mp (place?_eq_some.mp hx).1).1
  have hlast := turns_of_ended hs (ended_of_failed hfailed) order
  obtain ⟨report, he⟩ := hdone _ (List.mem_of_getElem? hlast)
  exact hn (failed_of_report he)

theorem Calm.stations_eq (h : Calm f) (k : Nat) :
    f.stations[k]? = (place? k f).map Prod.fst := by
  cases hs : f.stations[k]? with
  | none =>
    rw [place?_of_none hs]
    rfl
  | some s =>
    obtain ⟨r, hx⟩ := h.exists_place? hs
    rw [hx]
    rfl

theorem Calm.eq_of_places (h' : Calm f') (h'' : Calm f'') (hf' : Framed f f') (hf'' : Framed f f'')
    (hplace : ∀ k, place? k f' = place? k f'') : f' = f'' := by
  have hstations : f'.stations = f''.stations := by
    refine List.ext_getElem? fun k => ?_
    rw [h'.stations_eq, h''.stations_eq, hplace]
  have hcard : f'.card = f''.card := by
    refine Card.eq_of_rings (hf'.card.trans hf''.card.symm) fun q => ?_
    by_cases hq : q ∈ f.stations.map Station.id
    · obtain ⟨s, hm, rfl⟩ := List.mem_map.mp (hf'.ids ▸ hq)
      obtain ⟨k, hk⟩ := List.mem_iff_getElem?.mp hm
      obtain ⟨r, hx⟩ := h'.exists_place? hk
      exact (place?_eq_some.mp hx).2.trans (place?_eq_some.mp (hplace k ▸ hx)).2.symm
    · rw [hf'.elsewhere q hq, hf''.elsewhere q hq]
  obtain ⟨stations, abort, card⟩ := f'
  obtain ⟨stations', abort', card'⟩ := f''
  cases h'.abort_eq
  cases h''.abort_eq
  cases hstations
  cases hcard
  rfl

theorem Calm.isOver_iff (schedule : Schedule) (h : Calm f) :
    isOver schedule f = true ↔ ∀ s ∈ f.stations, s.ended.isSome := by
  rw [isOver, h.abort_eq, Bool.and_false, Bool.or_false, List.all_eq_true]

theorem turns_range' (schedule : Schedule) {pre rest : List (Station ω)}
    (hs : f.stations = pre ++ rest) :
    ∃ m, (turns (List.range' pre.length m) f =
        let (rest, abort, card) := sweepStations schedule false rest f.abort f.card
        ⟨pre ++ rest, abort, card⟩) ∧
      ((turns (List.range' pre.length m) f).abort = false → m = rest.length) := by
  induction rest generalizing pre f with
  | nil =>
    refine ⟨0, ?_, fun _ => rfl⟩
    obtain ⟨stations, abort, card⟩ := f
    cases hs
    rfl
  | cons s rest ih =>
    rw [sweepStations]
    by_cases hstop : (decide (schedule = .roundRobin) && f.abort) = true
    · rw [if_pos hstop]
      refine ⟨0, ?_, fun habort => ?_⟩
      · dsimp only
        rw [← hs]
        rfl
      · have habort' : f.abort = false := habort
        rw [habort', Bool.and_false] at hstop
        cases hstop
    · rw [if_neg hstop]
      have hturn : turn pre.length f = ⟨(pre ++ [(step false s f.abort f.card).1]) ++ rest,
          (step false s f.abort f.card).2.1, (step false s f.abort f.card).2.2⟩ := by
        rw [turn, hs]
        simp
      obtain ⟨m, hm, hall⟩ := ih (congrArg Floor.stations hturn)
      rw [List.length_append, List.length_singleton] at hm hall
      refine ⟨m + 1, ?_, fun habort => congrArg Nat.succ (hall habort)⟩
      rw [List.range'_succ]
      refine hm.trans ?_
      rw [hturn]
      simp only [List.append_assoc, List.singleton_append]

theorem sweep_eq_turns (schedule : Schedule) (f : Floor ω) :
    ∃ m, sweep schedule false f = turns (List.range m) f ∧
      ((turns (List.range m) f).abort = false → m = f.stations.length) := by
  obtain ⟨m, hm, hall⟩ := turns_range' schedule (List.nil_append f.stations).symm
  rw [List.length_nil, ← List.range_eq_range'] at hm hall
  exact ⟨m, hm.symm, hall⟩

theorem sweeps_eq_turns (schedule : Schedule) (fuel : Nat) (f : Floor ω) :
    ∃ order, (sweeps schedule false fuel () f).2 = turns order f := by
  induction fuel generalizing f with
  | zero => exact ⟨[], rfl⟩
  | succ fuel ih =>
    rw [sweeps]
    split
    · exact ⟨[], rfl⟩
    · obtain ⟨m, hm, -⟩ := sweep_eq_turns schedule f
      obtain ⟨order, horder⟩ := ih (turns (List.range m) f)
      refine ⟨List.range m ++ order, ?_⟩
      rw [turns, List.foldl_append]
      exact (congrArg (fun f => (sweeps schedule false fuel () f).2) hm).trans horder

variable [LawfulWorker ω]

theorem Calm.after_turn (h : Calm f) (hx : place? i f = some x) (hok : failed (alone x).1 = false) :
    Calm (turn i f) ∧ Framed f (turn i f) ∧
      ∀ k, place? k (turn i f) = if k = i then some (alone x) else place? k f := by
  obtain ⟨hs, hr⟩ := place?_eq_some.mp hx
  have hi : i < f.stations.length := (List.getElem?_eq_some_iff.mp hs).1
  have hids : (f.stations.set i (alone x).1).map Station.id = f.stations.map Station.id := by
    rw [List.map_set, id_alone]
    refine List.ext_getElem? fun k => ?_
    rw [List.getElem?_set]
    split
    · next hk =>
      rw [← hk, if_pos (by simpa using hi), List.getElem?_map, hs]
      rfl
    · rfl
  have hring : ∀ q, (f.card.setRing x.1.id (alone x).2).ring? q =
      if x.1.id = q then some (alone x).2 else f.card.ring? q :=
    fun q => Card.ring?_setRing hr (alone x).2
  rw [h.turn_eq hx, hok, Bool.and_false]
  refine ⟨⟨rfl, hids ▸ h.apart, fun s hm => ?_⟩, ⟨hids, Card.withoutRings_withRing _ _ _,
    fun q hq => ?_⟩, fun k => ?_⟩
  · rw [hring]
    split
    · rfl
    · have hid : s.id ∈ f.stations.map Station.id := hids ▸ List.mem_map_of_mem hm
      obtain ⟨s', hm', he⟩ := List.mem_map.mp hid
      rw [← he]
      exact h.ring s' hm'
  · refine (hring q).trans (if_neg fun he => hq ?_)
    rw [← he]
    exact List.mem_map_of_mem (List.mem_of_getElem? hs)
  · split
    · next hk =>
      refine place?_eq_some.mpr ⟨?_, ?_⟩
      · rw [hk]
        exact List.getElem?_set_self hi
      · rw [id_alone, hring, if_pos rfl]
    · next hk =>
      rw [place?, place?, List.getElem?_set_ne (Ne.symm hk)]
      cases hk' : f.stations[k]? with
      | none => rfl
      | some s =>
        have hne : x.1.id ≠ s.id := by
          intro he
          refine hk ((List.getElem?_inj (by simpa using (List.getElem?_eq_some_iff.mp hk').1)
            h.apart).mp ?_)
          rw [List.getElem?_map, List.getElem?_map, hs, hk', Option.map_some, Option.map_some, he]
        simp only [Option.bind_eq_bind, Option.bind_some, hring, if_neg hne]

theorem Calm.endsWell (h : Calm f) {order : List Nat}
    (hdone : ∀ s ∈ (turns order f).stations, ∃ report, s.ended = some (.ok report))
    (hx : place? i f = some x) : EndsWell x := by
  induction order generalizing f x with
  | nil =>
    obtain ⟨report, he⟩ := hdone x.1 (List.mem_of_getElem? (place?_eq_some.mp hx).1)
    exact ⟨0, report, he⟩
  | cons k order ih =>
    cases hk : f.stations[k]? with
    | none =>
      have hsame : turns (k :: order) f = turns order f := congrArg (turns order) (turn_of_none hk)
      exact ih h (hsame ▸ hdone) hx
    | some s =>
      obtain ⟨r, hy⟩ := h.exists_place? hk
      obtain ⟨hcalm, -, hplace⟩ := h.after_turn hy (h.not_failed hdone hy)
      by_cases hi : i = k
      · subst hi
        cases hx.symm.trans hy
        exact .of_alone (ih hcalm hdone ((hplace i).trans (if_pos rfl)))
      · exact ih hcalm hdone ((hplace i).trans ((if_neg hi).trans hx))

/-- Polls in any order move each worker and its ring by as many polls as it is given, as if they
were alone, and nothing else. -/
theorem Calm.after_turns (h : Calm f) (hwell : ∀ k x, place? k f = some x → EndsWell x)
    (order : List Nat) :
    Calm (turns order f) ∧ Framed f (turns order f) ∧
      ∀ k, place? k (turns order f) =
        (place? k f).map (alone^[order.count k]) := by
  induction order generalizing f with
  | nil => exact ⟨h, .refl f, fun k => Option.map_id'.symm⟩
  | cons i order ih =>
    cases hi : f.stations[i]? with
    | none =>
      have hsame : turns (i :: order) f = turns order f :=
        congrArg (turns order) (turn_of_none hi)
      obtain ⟨hcalm, hframe, hplace⟩ := ih h hwell
      rw [hsame]
      refine ⟨hcalm, hframe, fun k => (hplace k).trans ?_⟩
      by_cases hk : i = k
      · rw [← hk, place?_of_none hi]
        rfl
      · rw [List.count_cons_of_ne hk]
    | some s =>
      obtain ⟨r, hx⟩ := h.exists_place? hi
      obtain ⟨hcalm, hframe, hplace⟩ := h.after_turn hx ((hwell i _ hx).iterate 1).not_failed
      obtain ⟨hcalm', hframe', hplace'⟩ := ih hcalm fun k y hy => by
        rw [hplace] at hy
        split at hy
        · cases hy
          exact (hwell i _ hx).iterate 1
        · exact hwell k y hy
      refine ⟨hcalm', hframe.trans hframe', fun k => (hplace' k).trans ?_⟩
      rw [hplace]
      split
      · next hk =>
        rw [hk, hx, List.count_cons_self]
        rfl
      · next hk => rw [List.count_cons_of_ne (Ne.symm hk)]

/-- Two orders of polls that both bring every worker to its end come to the same floor. -/
theorem Calm.turns_eq (h : Calm f) (hwell : ∀ k x, place? k f = some x → EndsWell x)
    {order order' : List Nat} (hend : ∀ s ∈ (turns order f).stations, s.ended.isSome)
    (hend' : ∀ s ∈ (turns order' f).stations, s.ended.isSome) :
    turns order f = turns order' f := by
  obtain ⟨hcalm, hframe, hplace⟩ := h.after_turns hwell order
  obtain ⟨hcalm', hframe', hplace'⟩ := h.after_turns hwell order'
  refine hcalm.eq_of_places hcalm' hframe hframe' fun k => ?_
  cases hx : place? k f with
  | none => rw [hplace, hplace', hx]; rfl
  | some x =>
    have hlast := hplace k
    have hlast' := hplace' k
    rw [hx, Option.map_some] at hlast hlast'
    rw [hlast, hlast', iterate_alone_eq
      (hend _ (List.mem_of_getElem? (place?_eq_some.mp hlast).1))
      (hend' _ (List.mem_of_getElem? (place?_eq_some.mp hlast').1))]

theorem Calm.endsWell_turns (h : Calm f) (hwell : ∀ k x, place? k f = some x → EndsWell x)
    (order : List Nat) {k : Nat} (hx : place? k (turns order f) = some x) :
    EndsWell x := by
  obtain ⟨-, -, hplace⟩ := h.after_turns hwell order
  obtain ⟨y, hy, rfl⟩ := Option.map_eq_some_iff.mp ((hplace k).symm.trans hx)
  exact (hwell k y hy).iterate _

theorem Calm.ended_sweeps (schedule : Schedule) (fuel : Nat) (h : Calm f)
    (hwell : ∀ k x, place? k f = some x → EndsWell x)
    (hfuel : ∀ k x, place? k f = some x → (alone^[fuel] x).1.ended.isSome) :
    ∀ s ∈ (sweeps schedule false fuel () f).2.stations, s.ended.isSome := by
  induction fuel generalizing f with
  | zero =>
    intro s hm
    obtain ⟨k, hk⟩ := List.mem_iff_getElem?.mp hm
    obtain ⟨r, hx⟩ := h.exists_place? hk
    exact hfuel k _ hx
  | succ fuel ih =>
    rw [sweeps]
    split
    · next hover => exact (h.isOver_iff schedule).mp hover
    · obtain ⟨m, hsweep, hall⟩ := sweep_eq_turns schedule f
      obtain ⟨hcalm, -, hplace⟩ := h.after_turns hwell (List.range m)
      cases hall hcalm.abort_eq
      change ∀ s ∈ (sweeps schedule false fuel () (sweep schedule false f)).2.stations, _
      rw [hsweep]
      refine ih hcalm (fun k y => h.endsWell_turns hwell _) fun k y hy => ?_
      obtain ⟨x, hx, rfl⟩ := Option.map_eq_some_iff.mp ((hplace k).symm.trans hy)
      have hk := (List.getElem?_eq_some_iff.mp (place?_eq_some.mp hx).1).1
      rw [List.nodup_range.count, if_pos (List.mem_range.mpr hk)]
      exact hfuel k x hx

end Turns

section Runs

variable {ω : Type} [Worker ω] {ws : List ω} {card : Card} {f : Floor ω}
  {reports : List WorkerReport}

def start {κ : Type} (ws : List ω) (card : κ) : Floor ω κ :=
  { stations := ws.map fun worker => { worker }, card }

def Reported (f : Floor ω) (reports : List WorkerReport) : Prop :=
  f.stations.map Station.ended = reports.map fun report => some (.ok report)

/-- Each worker has come to the report and the state, and its ring to the contents, that it comes to
when it is run alone. -/
def AsAlone (ws : List ω) (card : Card) (f : Floor ω) (reports : List WorkerReport) : Prop :=
  reports.length = ws.length ∧ ∀ (i : Nat) (w : ω), ws[i]? = some w → ∃ r report w' r',
    card.ring? (Worker.queue w).channel.id = some r ∧
    Worker.run undisturbed w r = (.ok report, w', r') ∧
    reports[i]? = some report ∧
    f.stations[i]? = some { worker := w', ended := some (.ok report) } ∧
    f.card.ring? (Worker.queue w).channel.id = some r'

theorem calm_start (hapart : (ws.map fun w => (Worker.queue w).channel.id).Nodup)
    (hring : ∀ w ∈ ws, (card.ring? (Worker.queue w).channel.id).isSome) :
    Calm (start ws card) := by
  refine ⟨rfl, ?_, fun s hm => ?_⟩
  · rw [start, List.map_map]
    exact hapart
  · obtain ⟨w, hw, rfl⟩ := List.mem_map.mp hm
    exact hring w hw

theorem place?_start {k : Nat} {x : Station ω × PacketRing}
    (hx : place? k (start ws card) = some x) :
    ∃ w r, ws[k]? = some w ∧ x = ({ worker := w }, r) := by
  obtain ⟨hs, -⟩ := place?_eq_some.mp hx
  rw [start, List.getElem?_map] at hs
  obtain ⟨w, hw, hs⟩ := Option.map_eq_some_iff.mp hs
  exact ⟨w, x.2, hw, Prod.ext hs.symm rfl⟩

omit [Worker ω] in
theorem Reported.mem (h : Reported f reports) {s : Station ω} (hm : s ∈ f.stations) :
    ∃ report, s.ended = some (.ok report) := by
  have hended : s.ended ∈ reports.map fun report => some (.ok report) :=
    h ▸ List.mem_map_of_mem hm
  obtain ⟨report, -, he⟩ := List.mem_map.mp hended
  exact ⟨report, he.symm⟩

omit [Worker ω] in
theorem Reported.getElem? (h : Reported f reports) {k : Nat} {s : Station ω}
    (hs : f.stations[k]? = some s) :
    ∃ report, reports[k]? = some report ∧ s.ended = some (.ok report) := by
  have hended := congrArg (·[k]?) h
  simp only [List.getElem?_map, hs, Option.map_some] at hended
  obtain ⟨report, hr, he⟩ := Option.map_eq_some_iff.mp hended.symm
  exact ⟨report, hr, he.symm⟩

def reportOf (s : Station ω) : Except (Halt RunError) WorkerReport :=
  match s.ended with
  | some (.ok report) => .ok report
  | _ => .error .stuck

omit [Worker ω] in
theorem reportOf_eq_ok {s : Station ω} {report : WorkerReport} :
    reportOf s = .ok report ↔ s.ended = some (.ok report) := by
  rw [reportOf]
  rcases s.ended with _ | _ | report' <;> simp

omit [Worker ω] in
theorem mapM_reportOf {stations : List (Station ω)} :
    stations.mapM reportOf = .ok reports ↔
      stations.map Station.ended = reports.map fun report => some (.ok report) := by
  induction stations generalizing reports with
  | nil => cases reports <;> simp [pure, Except.pure]
  | cons s stations ih =>
    rw [List.mapM_cons]
    constructor
    · intro h
      cases hs : reportOf s with
      | error e =>
        rw [hs] at h
        cases h
      | ok report =>
        cases hrest : stations.mapM reportOf with
        | error e =>
          rw [hs, hrest] at h
          cases h
        | ok rest =>
          rw [hs, hrest] at h
          cases h
          rw [List.map_cons, List.map_cons, reportOf_eq_ok.mp hs, ih.mp hrest]
    · intro h
      cases reports with
      | nil => cases h
      | cons report reports =>
        obtain ⟨hs, hrest⟩ := List.cons.inj h
        rw [reportOf_eq_ok.mpr hs, ih.mpr hrest]
        rfl

theorem outcome_eq_ok {schedule : Schedule} :
    outcome schedule f = .ok reports ↔ Reported f reports := by
  rw [outcome]
  constructor
  · intro h
    split at h
    · cases h
    · exact mapM_reportOf.mp h
  · intro h
    have hnone : f.stations.findSome? (failure schedule) = none := by
      refine List.findSome?_eq_none_iff.mpr fun s hm => ?_
      obtain ⟨report, he⟩ := h.mem hm
      rw [failure, he]
    rw [hnone]
    exact mapM_reportOf.mpr h

theorem le_foldl_max (ns : List Nat) (b : Nat) :
    b ≤ ns.foldl max b ∧ ∀ n ∈ ns, n ≤ ns.foldl max b := by
  induction ns generalizing b with
  | nil => simp
  | cons n ns ih =>
    obtain ⟨hb, hns⟩ := ih (max b n)
    rw [List.foldl_cons, List.forall_mem_cons]
    exact ⟨by omega, by omega, hns⟩

theorem pollsLeft_lt_sweepsLeft {w : ω} (hw : w ∈ ws) :
    Worker.pollsLeft w + 1 ≤ sweepsLeft ws := by
  have hle := (le_foldl_max (ws.map Worker.pollsLeft) 0).2 _ (List.mem_map_of_mem hw)
  rw [sweepsLeft]
  omega

theorem exists_reported {schedule : Schedule}
    (h : (run schedule false ws () card).1 = .ok reports) :
    ∃ order, Reported (turns order (start ws card)) reports := by
  obtain ⟨order, horder⟩ := sweeps_eq_turns schedule (sweepsLeft ws) (start ws card)
  refine ⟨order, ?_⟩
  rw [← horder]
  exact outcome_eq_ok.mp h

section Reports

variable [LawfulWorker ω] {order : List Nat}
  (hapart : (ws.map fun w => (Worker.queue w).channel.id).Nodup)
  (hring : ∀ w ∈ ws, (card.ring? (Worker.queue w).channel.id).isSome)
  (hdone : Reported (turns order (start ws card)) reports)

include hapart hring hdone

theorem endsWell_start {k : Nat} {x : Station ω × PacketRing}
    (hx : place? k (start ws card) = some x) : EndsWell x :=
  (calm_start hapart hring).endsWell (fun _ hm => hdone.mem hm) hx

theorem exists_iterate_alone {i : Nat} {w : ω} {r : PacketRing} (hw : ws[i]? = some w)
    (hr : card.ring? (Worker.queue w).channel.id = some r) :
    ∃ report w' r', alone^[order.count i] ({ worker := w }, r) =
        ({ worker := w', ended := some (.ok report) }, r') ∧
      reports[i]? = some report ∧
      place? i (turns order (start ws card)) =
        some ({ worker := w', ended := some (.ok report) }, r') := by
  obtain ⟨-, -, hplace⟩ := (calm_start hapart hring).after_turns
    (fun _ _ hx => endsWell_start hapart hring hdone hx) order
  have hx : place? i (start ws card) = some ({ worker := w }, r) :=
    place?_eq_some.mpr ⟨by rw [start, List.getElem?_map, hw]; rfl, hr⟩
  have hy := hplace i
  rw [hx, Option.map_some] at hy
  obtain ⟨report, hreport, he⟩ := hdone.getElem? (place?_eq_some.mp hy).1
  obtain ⟨⟨⟨w', ended⟩, r'⟩, hz⟩ : ∃ z, alone^[order.count i] ({ worker := w }, r) = z :=
    ⟨_, rfl⟩
  rw [hz] at hy he
  cases he
  exact ⟨report, w', r', hz, hreport, hy⟩

variable [PacedWorker ω]

theorem asAlone_of_reported : AsAlone ws card (turns order (start ws card)) reports := by
  obtain ⟨-, hframe, -⟩ := (calm_start hapart hring).after_turns
    (fun _ _ hx => endsWell_start hapart hring hdone hx) order
  refine ⟨?_, fun i w hw => ?_⟩
  · have hreports := congrArg List.length hdone
    have hstations := congrArg List.length hframe.ids
    simp only [List.length_map, start] at hreports hstations
    exact hreports.symm.trans hstations
  · obtain ⟨r, hr⟩ := Option.isSome_iff_exists.mp (hring w (List.mem_of_getElem? hw))
    obtain ⟨report, w', r', hz, hreport, hy⟩ := exists_iterate_alone hapart hring hdone hw hr
    obtain ⟨hs, hr'⟩ := place?_eq_some.mp hy
    have hid := id_iterate_alone (order.count i) ({ worker := w }, r)
    rw [hz] at hid
    exact ⟨r, report, w', r', hr, (run_of_iterate_alone hz).1, hreport, hs,
      (congrArg _ hid.symm).trans hr'⟩

/-- A run on either schedule comes to the floor to which any order of polls comes that brings every
worker to its report. -/
theorem run_of_reported (schedule : Schedule) :
    run schedule false ws () card = (.ok reports,
      (turns order (start ws card)).stations.map Station.worker, (),
      (turns order (start ws card)).card) := by
  have hcalm := calm_start hapart hring
  have hwell : ∀ k x, place? k (start ws card) = some x → EndsWell x :=
    fun _ _ hx => endsWell_start hapart hring hdone hx
  have hend : ∀ s ∈ (turns order (start ws card)).stations, s.ended.isSome := by
    intro s hm
    obtain ⟨report, he⟩ := hdone.mem hm
    rw [he]
    rfl
  have hend' := hcalm.ended_sweeps schedule (sweepsLeft ws) hwell fun k x hx => by
    obtain ⟨w, r, hw, rfl⟩ := place?_start hx
    obtain ⟨report, w', r', hz, -⟩ :=
      exists_iterate_alone hapart hring hdone hw (place?_eq_some.mp hx).2
    have hfuel := (run_of_iterate_alone hz).2
    rw [iterate_alone_of_le (pollsLeft_lt_sweepsLeft (List.mem_of_getElem? hw)) hfuel]
    exact hfuel
  obtain ⟨order', horder⟩ := sweeps_eq_turns schedule (sweepsLeft ws) (start ws card)
  rw [horder] at hend'
  rw [hcalm.turns_eq hwell hend' hend] at horder
  have hsweeps : sweeps schedule false (sweepsLeft ws) () (start ws card) =
      ((), turns order (start ws card)) := Prod.ext rfl horder
  rw [← outcome_eq_ok.mpr hdone]
  change (let (h, f) := sweeps schedule false (sweepsLeft ws) () (start ws card)
    (outcome schedule f, f.stations.map Station.worker, h, f.card)) = _
  rw [hsweeps]

end Reports

end Runs

end DmaBurst.Drive
