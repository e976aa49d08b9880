import DmaBurst.Proofs.Run.Rota

namespace DmaBurst

def Visit.failure? {ω : Type} (v : Visit ω) : Option (Halt WorkerError) :=
  match v.answer with
  | .error e => some e
  | .ok _ => none

namespace Rota

def cycles (sweeps n : Nat) : List Nat :=
  (List.replicate sweeps (List.range n)).flatten

theorem cycles_succ (sweeps n : Nat) : cycles (sweeps + 1) n = List.range n ++ cycles sweeps n := by
  rw [cycles, List.replicate_succ, List.flatten_cons]
  rfl

theorem count_range (n i : Nat) : (List.range n).count i = if i < n then 1 else 0 := by
  rw [List.nodup_range.count]
  simp

theorem eq_range_of_append {n p : Nat} {before after : List Nat}
    (h : List.range n = before ++ p :: after) : before = List.range p := by
  have hlength : before.length < n := by
    have := congrArg List.length h
    rw [List.length_range, List.length_append, List.length_cons] at this
    omega
  have hp : before.length = p := by
    have := congrArg (·[before.length]?) h
    simpa [List.getElem?_range hlength] using this
  have hbefore := congrArg (List.take before.length) h
  rw [List.take_left, List.take_range, Nat.min_eq_left (Nat.le_of_lt hlength), hp] at hbefore
  exact hbefore.symm

theorem count_before {sweeps n p : Nat} {before after : List Nat}
    (h : cycles sweeps n = before ++ p :: after) :
    ∃ k, ∀ i < n, before.count i = k + if i < p then 1 else 0 := by
  induction sweeps generalizing before with
  | zero => simp [cycles] at h
  | succ sweeps ih =>
    rw [cycles_succ] at h
    -- either the first sweep is behind, or the place is in it
    obtain ⟨rest, hbefore, hrest⟩ | ⟨rest, hrange, hrest⟩ := List.append_eq_append_iff.mp h
    · obtain ⟨k, hk⟩ := ih hrest
      refine ⟨k + 1, fun i hi => ?_⟩
      rw [hbefore, List.count_append, hk i hi, count_range, if_pos hi]
      omega
    · cases rest with
      | nil =>
        rw [List.append_nil] at hrange
        have hnext : cycles sweeps n = [] ++ p :: after := hrest.symm
        obtain ⟨k, hk⟩ := ih hnext
        refine ⟨k + 1, fun i hi => ?_⟩
        have hnone := hk i hi
        rw [List.count_nil] at hnone
        rw [← hrange, count_range, if_pos hi]
        omega
      | cons p' rest =>
        obtain ⟨rfl, -⟩ := List.cons.inj hrest
        refine ⟨0, fun i hi => ?_⟩
        rw [eq_range_of_append hrange, count_range, Nat.zero_add]

/-- The turns of workers in a row are sweeps over all of them, the last of which may break off. A
place without a worker has turns in between, which are the hardware's. -/
def Cyclic (n : Nat) (row : List (Moment × Nat)) : Prop :=
  ∃ sweeps, (row.map Prod.snd).filter (· < n) <+: cycles sweeps n

theorem lt_of_mem_cycles {sweeps n i : Nat} (h : i ∈ cycles sweeps n) : i < n := by
  obtain ⟨range, hrange, hi⟩ := List.mem_flatten.mp h
  cases List.eq_of_mem_replicate hrange
  exact List.mem_range.mp hi

theorem cyclic_of_eq {sweeps n : Nat} {row : List (Moment × Nat)}
    (hrow : row.map Prod.snd = cycles sweeps n) : Cyclic n row := by
  refine ⟨sweeps, ?_⟩
  rw [hrow, List.filter_eq_self.mpr fun i hi => by simpa using lt_of_mem_cycles hi]

theorem cyclic_nil (n : Nat) : Cyclic n [] :=
  ⟨0, List.nil_prefix⟩

theorem cyclic_sweep {n m : Nat} {x y : Moment} {row : List (Moment × Nat)} (hm : m ≤ n)
    (hrow : row = [] ∨ m = n ∧ Cyclic n row) :
    Cyclic n ((x, n) :: (List.range' 0 m).map (fun i => (y, i)) ++ row) := by
  have hplaces : (((x, n) :: (List.range' 0 m).map (fun i => (y, i))).map Prod.snd).filter (· < n) =
      List.range m := by
    rw [List.map_cons, List.filter_cons_of_neg (by simp), List.map_map, ← List.range_eq_range']
    have hid : (List.range m).map (Prod.snd ∘ fun i => (y, i)) = List.range m := List.map_id _
    rw [hid]
    refine List.filter_eq_self.mpr fun i hi => ?_
    simpa using (List.mem_range.mp hi).trans_le hm
  obtain rfl | ⟨rfl, sweeps, hrow⟩ := hrow
  · refine ⟨1, ?_⟩
    have htake : (List.range n).take m = List.range m := by
      rw [List.take_range, Nat.min_eq_left hm]
    rw [List.append_nil, hplaces, cycles_succ]
    exact (htake ▸ List.take_prefix m _).trans (List.prefix_append _ _)
  · refine ⟨sweeps + 1, ?_⟩
    rw [List.map_append, List.filter_append, hplaces, cycles_succ]
    exact (List.prefix_append_right_inj _).mpr hrow

section Turns

variable {ω : Type} [Worker ω] [MeteredWorker ω] {ws : List ω} {card : Card} {f : Rota ω}
  {row : List (Moment × Nat)} {earlier later : List (Visit ω)} {v : Visit ω}

theorem exists_turn (hf : f.visits = []) (h : (turns row f).visits = earlier ++ v :: later) :
    ∃ row₁ x row₂ w', row = row₁ ++ x :: row₂ ∧ (turns row₁ f).visits = earlier ∧ x.2 = v.place ∧
      Polled v w' (turns row₁ f) (visit x.1 x.2 (turns row₁ f)) := by
  induction row using List.reverseRecOn generalizing later with
  | nil =>
    rw [turns, List.foldl_nil, hf] at h
    simp at h
  | append_singleton row x ih =>
    rw [turns_append] at h
    obtain ⟨-, heq⟩ | ⟨u, w', hu, hpolled⟩ := visit_cases x.1 x.2 (turns row f)
    · have hsame : (turns row f).visits = earlier ++ v :: later :=
        (congrArg visits heq).symm.trans h
      obtain ⟨row₁, y, row₂, w', rfl, hrest⟩ := ih hsame
      exact ⟨row₁, y, row₂ ++ [x], w', by simp, hrest⟩
    · have hvisits := hpolled.visits_eq.symm.trans h
      -- `v` is what this turn has polled, or it stands further to the front
      cases later using List.reverseRecOn with
      | nil =>
        obtain ⟨hearlier, hv⟩ := List.append_inj' hvisits rfl
        cases hv
        exact ⟨row, x, [], w', rfl, hearlier, hu.symm, hpolled⟩
      | append_singleton later u' =>
        rw [← List.cons_append, ← List.append_assoc] at hvisits
        obtain ⟨hsame, -⟩ := List.append_inj' hvisits rfl
        obtain ⟨row₁, y, row₂, w', rfl, hrest⟩ := ih hsame
        exact ⟨row₁, y, row₂ ++ [x], w', by simp, hrest⟩

/-- The polls in order of sweeps and places: at each of them every worker that is still to be polled
has been polled as often as the one whose turn it is, and once more if its place is smaller. -/
def InTurn (n : Nat) (visits : List (Visit ω)) : Prop :=
  ∀ earlier v later, visits = earlier ++ v :: later → v.place < n ∧
    ∀ i < n, (∀ u ∈ earlier, u.place = i → Poll.isDone u.answer = false) →
      polledAt i earlier = polledAt v.place earlier + if i < v.place then 1 else 0

theorem open_of_undone (hrow : Kept ws f) (hcalm : f.failure = none) {i : Nat} (hi : i < ws.length)
    (h : ∀ u ∈ f.visits, u.place = i → Poll.isDone u.answer = false) : Open i f := by
  refine ⟨hcalm, hrow.workers_length ▸ hi, ?_⟩
  have hlt : i < f.done.length := hrow.done_length ▸ hi
  rw [List.getElem?_eq_getElem hlt]
  cases hdone : f.done[i] with
  | false => rfl
  | true =>
    obtain ⟨u, hu, hplace, hd⟩ :=
      (hrow.done_iff i).mp ((List.getElem?_eq_getElem hlt).trans (congrArg some hdone))
    rw [h u hu hplace] at hd
    cases hd

theorem inTurn_turns (hrow : Cyclic ws.length row) :
    InTurn ws.length (turns row (start ws card)).visits := by
  intro earlier v later h
  obtain ⟨row₁, x, row₂, w', rfl, rfl, hx, hpolled⟩ := exists_turn rfl h
  have hkept : Kept ws (turns row₁ (start ws card)) := (kept_start ws card).turns row₁
  have hplace : v.place < ws.length :=
    hkept.workers_length ▸ (List.getElem?_eq_some_iff.mp hpolled.worker).1
  obtain ⟨sweeps, rest, hcycles⟩ := hrow
  rw [List.map_append, List.map_cons, hx, List.filter_append,
    List.filter_cons_of_pos (by simpa using hplace), List.append_assoc, List.cons_append] at hcycles
  obtain ⟨k, hk⟩ := count_before hcycles.symm
  have hturns : ∀ {i : Nat}, i < ws.length → Open i (turns row₁ (start ws card)) →
      polledAt i (turns row₁ (start ws card)).visits = k + if i < v.place then 1 else 0 := by
    intro i hi hopen
    rw [← hk i hi, List.count_filter (by simpa using hi), hopen.polledAt_turns, List.count,
      List.countP_map]
    exact Nat.zero_add _
  -- a worker that no poll has found done has been polled in each of its turns
  have hown : Open v.place (turns row₁ (start ws card)) :=
    ⟨hpolled.calm, hkept.workers_length ▸ hplace, hpolled.undone⟩
  refine ⟨hplace, fun i hi hundone => ?_⟩
  rw [hturns hi (open_of_undone hkept hpolled.calm hi hundone), hturns hplace hown,
    if_neg (Nat.lt_irrefl _), Nat.add_zero]

theorem exists_cyclic_loop (fuel : Nat) (moments : Nat → Nat → Moment) (f : Rota ω) :
    ∃ row, loop fuel moments f = turns row f ∧ Cyclic f.workers.length row := by
  suffices h : ∃ row sweeps, loop fuel moments f = turns row f ∧
      row.map Prod.snd = cycles sweeps f.workers.length by
    obtain ⟨row, sweeps, hloop, hrow⟩ := h
    exact ⟨row, hloop, cyclic_of_eq hrow⟩
  induction fuel generalizing moments f with
  | zero => exact ⟨[], 0, rfl, rfl⟩
  | succ fuel ih =>
    rw [loop]
    split
    · exact ⟨[], 0, rfl, rfl⟩
    · obtain ⟨row, sweeps, hloop, hrow⟩ := ih (fun k => moments (k + 1)) (sweep (moments 0) f)
      have hlength : (sweep (moments 0) f).workers.length = f.workers.length := length_turns _ f
      refine ⟨(List.range f.workers.length).map (fun i => (moments 0 i, i)) ++ row, sweeps + 1,
        ?_, ?_⟩
      · rw [hloop, turns_append]
        rfl
      · rw [List.map_append, hrow, hlength, cycles_succ, List.map_map]
        exact congrArg (· ++ _) (List.map_id _)

end Turns

section Failure

variable {ω : Type} [Worker ω] {ws : List ω} {card : Card} {f : Rota ω}
  {row : List (Moment × Nat)} {earlier : List (Visit ω)} {v : Visit ω} {e : Halt WorkerError}

structure Blamed (f : Rota ω) : Prop where
  failure_eq : f.failure = f.visits.findSome? Visit.failure?
  final : f.visits.Pairwise fun v _ => v.failure? = none

omit [Worker ω] in
theorem blamed_start (ws : List ω) (card : Card) : Blamed (start ws card) :=
  ⟨rfl, .nil⟩

omit [Worker ω] in
theorem settle_failure (v : Visit ω) (f : Rota ω) :
    (settle v.place f v.answer).failure = v.failure?.or f.failure := by
  rw [Visit.failure?]
  rcases v.answer with _ | _ | _ | _ <;> rfl

theorem failure_visit (x : Moment) (i : Nat) (f : Rota ω) :
    (visit x i f).failure = f.failure ∧ (visit x i f).visits = f.visits ∨
      f.failure = none ∧ ∃ v, (visit x i f).failure = v.failure? ∧
        (visit x i f).visits = f.visits ++ [v] := by
  rw [visit]
  dsimp only
  split
  · next w hcalm _ _ =>
    refine .inr ⟨hcalm, ⟨i, x.flags, w, _⟩, (settle_failure ⟨i, x.flags, w, _⟩ _).trans ?_,
      settle_visits ..⟩
    dsimp only
    rw [hcalm, Option.or_none]
  · exact .inl ⟨rfl, rfl⟩

theorem Blamed.visit (h : Blamed f) (x : Moment) (i : Nat) : Blamed (visit x i f) := by
  obtain ⟨hfailure, hvisits⟩ | ⟨hcalm, v, hfailure, hvisits⟩ := failure_visit x i f
  · exact ⟨by rw [hfailure, hvisits, h.failure_eq], by rw [hvisits]; exact h.final⟩
  · have hnone : f.visits.findSome? Visit.failure? = none := h.failure_eq.symm.trans hcalm
    refine ⟨?_, ?_⟩
    · rw [hfailure, hvisits, List.findSome?_append, hnone]
      simp
    · rw [hvisits, List.pairwise_append]
      exact ⟨h.final, List.pairwise_singleton _ _,
        fun u hu _ _ => List.findSome?_eq_none_iff.mp hnone u hu⟩

theorem Blamed.turns (h : Blamed f) (row : List (Moment × Nat)) : Blamed (turns row f) := by
  induction row generalizing f with
  | nil => exact h
  | cons x row ih => exact ih (h.visit x.1 x.2)

omit [Worker ω] in
theorem Blamed.failure_eq_none (h : Blamed f) :
    f.failure = none ↔ ∀ v ∈ f.visits, v.failure? = none := by
  rw [h.failure_eq, List.findSome?_eq_none_iff]

omit [Worker ω] in
theorem Blamed.failing_last (h : Blamed f) (hv : v ∈ f.visits) (he : v.failure? = some e) :
    f.failure = some e ∧
      ∃ earlier, f.visits = earlier ++ [v] ∧ ∀ u ∈ earlier, u.failure? = none := by
  obtain ⟨earlier, later, hvisits⟩ := List.append_of_mem hv
  have hfinal := h.final
  rw [hvisits, List.pairwise_append, List.pairwise_cons] at hfinal
  obtain ⟨-, ⟨hlater, -⟩, hearlier⟩ := hfinal
  have hnone : ∀ u ∈ earlier, u.failure? = none := fun u hu => hearlier u hu v List.mem_cons_self
  cases later with
  | nil =>
    refine ⟨?_, earlier, hvisits, hnone⟩
    rw [h.failure_eq, hvisits, List.findSome?_append, List.findSome?_eq_none_iff.mpr hnone,
      List.findSome?_singleton, he]
    rfl
  | cons u later =>
    have hcalm := hlater u List.mem_cons_self
    rw [he] at hcalm
    cases hcalm

/-- What the caller gets: the failure, or the reports of the workers once all are done. -/
def outcome (f : Rota ω) : Except (Halt RunError) (List WorkerReport) :=
  match f.failure with
  | some e => .error (e.map .worker)
  | none =>
    if isOver f then f.workers.mapM fun w => (Worker.report w).mapError .fault
    else .error .stuck

end Failure

section Order

variable {ω : Type} [Worker ω] [MeteredWorker ω] {ws : List ω} {f : Rota ω}
  {earlier between later : List (Visit ω)} {u v : Visit ω} {i j : Nat}

/-- The polls are in the order of their sweeps, and in that of the places in each of them. The sweep
of a poll is as many sweeps from the start as its worker has been polled before. -/
theorem lex_of_inTurn (hkept : Kept ws f) (h : InTurn ws.length f.visits)
    (hvisits : f.visits = earlier ++ u :: between ++ v :: later) :
    Prod.Lex (· < ·) (· < ·) (polledAt u.place earlier, u.place)
      (polledAt v.place (earlier ++ u :: between), v.place) := by
  have hfinal := hkept.final
  rw [hvisits, List.pairwise_append] at hfinal
  obtain ⟨-, -, hlast⟩ := hfinal
  have hundone : ∀ u' ∈ earlier, u'.place = v.place → Poll.isDone u'.answer = false := by
    intro u' hu' hplace
    refine Bool.eq_false_of_not_eq_true fun hdone => ?_
    exact hlast u' (List.mem_append_left _ hu') v List.mem_cons_self hdone hplace.symm
  obtain ⟨hv, -⟩ := h _ v later hvisits
  rw [List.append_assoc, List.cons_append] at hvisits
  obtain ⟨-, hcount⟩ := h earlier u _ hvisits
  have hturn := hcount v.place hv hundone
  have hgrow : polledAt v.place (earlier ++ u :: between) =
      polledAt v.place earlier +
        (polledAt v.place between + if u.place = v.place then 1 else 0) := by
    rw [polledAt, List.countP_append, List.countP_cons]
    simp [polledAt]
  rw [Prod.lex_def, hgrow, hturn]
  dsimp only
  split
  · omega
  · split
    · omega
    · omega

theorem polledAt_of_last (hkept : Kept ws f) (h : InTurn ws.length f.visits)
    (hvisits : f.visits = earlier ++ [v]) (hi : i < v.place) (hj : v.place < j)
    (hui : f.done[i]? = some false) (huj : f.done[j]? = some false) :
    polledAt i f.visits = polledAt j f.visits + 1 := by
  obtain ⟨hv, hcount⟩ := h earlier v [] hvisits
  have hopen : ∀ {k : Nat}, k ≠ v.place → f.done[k]? = some false →
      polledAt k f.visits = polledAt v.place earlier + if k < v.place then 1 else 0 := by
    intro k hne hk
    have hlt : k < ws.length := hkept.done_length ▸ (List.getElem?_eq_some_iff.mp hk).1
    have hundone : ∀ u ∈ earlier, u.place = k → Poll.isDone u.answer = false := by
      intro u hu hplace
      refine Bool.eq_false_of_not_eq_true fun hdone => ?_
      have hmem : u ∈ f.visits := hvisits ▸ List.mem_append_left _ hu
      cases hk.symm.trans ((hkept.done_iff k).mpr ⟨u, hmem, hplace, hdone⟩)
    rw [hvisits, polledAt_concat, decide_eq_false (Ne.symm hne), hcount k hlt hundone]
    rfl
  rw [hopen (by omega) hui, hopen (by omega) huj, if_pos hi, if_neg (by omega)]

end Order

end Rota

end DmaBurst
