import DmaBurst.Proofs.Run.Journal
import DmaBurst.Run.Scene

namespace DmaBurst

namespace Event

def givesBack : Event → Bool
  | .queueStopped _ | .queueClosed _ | .componentClosed _ | .deviceClosed => true
  | _ => false

theorem givesBack_of_mem_undo {events : List Event} {e : Event} (he : e ∈ undo events) :
    e.givesBack = true := by
  have hinverse : ∀ a : Event, stopping? a = some e ∨ closing? a = some e ∨
      componentClosing? a = some e ∨ deviceClosing? a = some e → e.givesBack = true := by
    intro a ha
    cases a <;> rcases ha with ha | ha | ha | ha <;> cases ha <;> rfl
  simp only [undo, List.mem_append, List.mem_filterMap] at he
  rcases he with ((⟨a, -, ha⟩ | ⟨a, -, ha⟩) | ⟨a, -, ha⟩) | ⟨a, -, ha⟩
  · exact hinverse a (.inl ha)
  · exact hinverse a (.inr (.inl ha))
  · exact hinverse a (.inr (.inr (.inl ha)))
  · exact hinverse a (.inr (.inr (.inr ha)))

theorem givesBack_of_mem_plan {direction : Direction} {count : Nat} {reset : Option ResetConfig}
    {card : Card} {e : Event} (he : e ∈ Session.plan direction count reset card) :
    e.givesBack = false := by
  simp only [Session.plan, List.mem_append, List.mem_map, List.mem_singleton] at he
  rcases he with (((rfl | ⟨_, -, rfl⟩) | ⟨_, -, rfl⟩) | ⟨_, -, rfl⟩) | ⟨_, -, rfl⟩ <;> rfl

end Event

namespace Effect

/-- The part of a run that an effect belongs to: setting up, moving packets, flushing, giving
back. -/
def phase : Effect → Nat
  | .entry e => if e.givesBack then 3 else 0
  | .call _ (.write ..) | .ended .. => 1
  | .call _ (.flush _) => 2

def event? : Effect → Option Event
  | .entry e => some e
  | _ => none

/-- The worker that an effect comes from. Flushes come from the coordinator. -/
def worker? : Effect → Option Nat
  | .call queue (.write ..) | .ended queue _ => some queue
  | _ => none

def callOn? (queue : Nat) : Effect → Option SinkCall
  | .call q c => if q = queue then some c else none
  | _ => none

def flush? : Effect → Option (Nat × Except (Halt IoError) Unit)
  | .call queue (.flush answer) => some (queue, answer)
  | _ => none

theorem callOn?_self (queue : Nat) (c : SinkCall) : (call queue c).callOn? queue = some c :=
  if_pos rfl

theorem callOn?_of_ne {queue queue' : Nat} (h : queue ≠ queue') (c : SinkCall) :
    (call queue c).callOn? queue' = none :=
  if_neg h

theorem flush?_flush (queue : Nat) (answer : Except (Halt IoError) Unit) :
    (call queue (.flush answer)).flush? = some (queue, answer) :=
  rfl

theorem phase_eq_one {e : Effect} {i : Nat} (h : e.worker? = some i) : e.phase = 1 := by
  rcases e with e | ⟨queue, call | call⟩ | ⟨queue, answer⟩ <;> first | rfl | cases h

theorem eq_of_worker? {i j : Nat} {c : SinkCall} (h : (call i c).worker? = some j) : j = i := by
  cases c with
  | write => exact (Option.some.inj h).symm
  | flush => cases h

theorem callOn?_eq_none {e : Effect} {i j : Nat} (h : e.worker? = some i) (hij : i ≠ j) :
    e.callOn? j = none := by
  rcases e with e | ⟨queue, call | call⟩ | ⟨queue, answer⟩
  · rfl
  · cases h
    exact if_neg hij
  · cases h
  · rfl

theorem phase_of_mem_undo (events : List Event) :
    ∀ e ∈ (Event.undo events).map entry, e.phase = 3 := by
  intro e he
  obtain ⟨a, ha, rfl⟩ := List.mem_map.mp he
  rw [phase, if_pos (Event.givesBack_of_mem_undo ha)]

theorem phase_of_mem_plan {direction : Direction} {count : Nat} {reset : Option ResetConfig}
    {card : Card} {events : List Event}
    (hsub : events ⊆ Session.plan direction count reset card) :
    ∀ e ∈ events.map entry, e.phase = 0 := by
  intro e he
  obtain ⟨a, ha, rfl⟩ := List.mem_map.mp he
  rw [phase, Event.givesBack_of_mem_plan (hsub ha), if_neg Bool.false_ne_true]

theorem event?_eq_none {e : Effect} (h : 0 < e.phase ∧ e.phase < 3) : e.event? = none := by
  cases e with
  | entry e =>
    rw [phase] at h
    split at h <;> omega
  | call | ended => rfl

theorem flush?_eq_none {e : Effect} (h : e.phase ≠ 2) : e.flush? = none := by
  rcases e with e | ⟨queue, call | call⟩ | ⟨queue, answer⟩
  · rfl
  · rfl
  · exact absurd rfl h
  · rfl

theorem events_entries (events : List Event) : (events.map entry).filterMap event? = events := by
  simp [List.filterMap_map, Function.comp_def, event?]

theorem callsOn_entries (i : Nat) (events : List Event) :
    (events.map entry).filterMap (callOn? i) = [] := by
  simp [List.filterMap_map, Function.comp_def, callOn?]

theorem flushes_entries (events : List Event) : (events.map entry).filterMap flush? = [] := by
  simp [List.filterMap_map, Function.comp_def, flush?]

end Effect

def InPhases (trace : List Effect) : Prop :=
  trace.Pairwise fun a b => a.phase ≤ b.phase

theorem InPhases.append {trace trace' : List Effect} (n : Nat) (h : InPhases trace)
    (h' : InPhases trace') (hle : ∀ e ∈ trace, e.phase ≤ n) (hge : ∀ e ∈ trace', n ≤ e.phase) :
    InPhases (trace ++ trace') :=
  List.pairwise_append.mpr ⟨h, h', fun a ha b hb => (hle a ha).trans (hge b hb)⟩

theorem InPhases.of_eq {trace : List Effect} {n : Nat} (h : ∀ e ∈ trace, e.phase = n) :
    InPhases trace :=
  List.pairwise_of_forall_mem_list fun a ha b hb => by rw [h a ha, h b hb]

/-- What different workers do next to one another may be in the log in either order. -/
inductive Shuffled (log : List Effect) : List Effect → Prop
  | refl : Shuffled log log
  | swap {front back : List Effect} {a b : Effect} {i j : Nat}
      (h : Shuffled log (front ++ a :: b :: back)) (ha : a.worker? = some i)
      (hb : b.worker? = some j) (hij : i ≠ j) : Shuffled log (front ++ b :: a :: back)

section Swap

variable {front back : List Effect} {a b : Effect} {i j : Nat}

theorem mem_swap {e : Effect} : e ∈ front ++ b :: a :: back ↔ e ∈ front ++ a :: b :: back := by
  simp only [List.mem_append, List.mem_cons, or_left_comm]

theorem filterMap_swap {β : Type} {f : Effect → Option β} (h : f a = none ∨ f b = none) :
    (front ++ b :: a :: back).filterMap f = (front ++ a :: b :: back).filterMap f := by
  rw [List.filterMap_append, List.filterMap_append]
  rcases h with h | h
  · simp only [List.filterMap_cons, h]
  · simp only [List.filterMap_cons, h]

theorem InPhases.swap (ha : a.worker? = some i) (hb : b.worker? = some j)
    (h : InPhases (front ++ a :: b :: back)) : InPhases (front ++ b :: a :: back) := by
  have hphases : (front ++ b :: a :: back).map Effect.phase =
      (front ++ a :: b :: back).map Effect.phase := by
    simp only [List.map_append, List.map_cons, Effect.phase_eq_one ha, Effect.phase_eq_one hb]
  rw [InPhases, ← List.pairwise_map (R := (· ≤ ·))] at h ⊢
  rwa [hphases]

/-- Entries that the log begins with stand before what any worker does. -/
theorem entries_prefix_swap {events : List Event} (ha : a.worker? = some i)
    (h : events.map .entry <+: front ++ a :: b :: back) :
    events.map .entry <+: front ++ b :: a :: back := by
  -- No worker leaves entries, so the front part has ended before the two change places.
  have hfront : events.map .entry <+: front := by
    rcases List.prefix_or_prefix_of_prefix h (List.prefix_append front (a :: b :: back)) with
      hpre | hpre
    · exact hpre
    · obtain ⟨rest, hrest⟩ := hpre
      rw [← hrest, List.prefix_append_right_inj] at h
      cases rest with
      | nil =>
        rw [List.append_nil] at hrest
        exact hrest ▸ List.prefix_rfl
      | cons e rest =>
        obtain ⟨rfl, -⟩ := List.cons_prefix_cons.mp h
        have hmem : e ∈ events.map Effect.entry := by
          rw [← hrest]
          simp
        obtain ⟨event, -, rfl⟩ := List.mem_map.mp hmem
        cases ha
  exact hfront.trans (List.prefix_append _ _)

end Swap

structure InParts (begun told flushes undone : List Effect) : Prop where
  begun_phase : ∀ e ∈ begun, e.phase = 0
  told_phase : ∀ e ∈ told, e.phase = 1
  flushes_phase : ∀ e ∈ flushes, e.phase = 2
  undone_phase : ∀ e ∈ undone, e.phase = 3

namespace InParts

variable {begun told flushes undone : List Effect} (h : InParts begun told flushes undone)

include h

theorem ended_mem_iff {i : Nat} {answer : Except (Halt WorkerError) WorkerReport} :
    .ended i answer ∈ begun ++ told ++ flushes ++ undone ↔ .ended i answer ∈ told := by
  simp only [List.mem_append]
  constructor
  · rintro (((hmem | hmem) | hmem) | hmem)
    · cases h.begun_phase _ hmem
    · exact hmem
    · cases h.flushes_phase _ hmem
    · cases h.undone_phase _ hmem
  · exact fun hmem => .inl (.inl (.inr hmem))

theorem sorted : InPhases (begun ++ told ++ flushes ++ undone) := by
  have hwritten : InPhases (begun ++ told) :=
    .append 0 (.of_eq h.begun_phase) (.of_eq h.told_phase) (fun e he => (h.begun_phase e he).le)
      fun e _ => Nat.zero_le e.phase
  have hle : ∀ e ∈ begun ++ told, e.phase ≤ 1 := by
    intro e he
    rcases List.mem_append.mp he with he | he
    · rw [h.begun_phase e he]
      exact Nat.zero_le 1
    · rw [h.told_phase e he]
  have hflushed : InPhases (begun ++ told ++ flushes) :=
    hwritten.append 1 (.of_eq h.flushes_phase) hle fun e he => by rw [h.flushes_phase e he]; decide
  refine hflushed.append 2 (.of_eq h.undone_phase) (fun e he => ?_) fun e he => ?_
  · rcases List.mem_append.mp he with he | he
    · exact (hle e he).trans (by decide)
    · rw [h.flushes_phase e he]
  · rw [h.undone_phase e he]
    decide

theorem events_eq : (begun ++ told ++ flushes ++ undone).filterMap Effect.event? =
    begun.filterMap Effect.event? ++ undone.filterMap Effect.event? := by
  have htold : told.filterMap Effect.event? = [] := List.filterMap_eq_nil_iff.mpr fun e he =>
    Effect.event?_eq_none (by rw [h.told_phase e he]; decide)
  have hflushes : flushes.filterMap Effect.event? = [] := List.filterMap_eq_nil_iff.mpr fun e he =>
    Effect.event?_eq_none (by rw [h.flushes_phase e he]; decide)
  rw [List.filterMap_append, List.filterMap_append, List.filterMap_append, htold, hflushes,
    List.append_nil, List.append_nil]

theorem flushes_eq : (begun ++ told ++ flushes ++ undone).filterMap Effect.flush? =
    flushes.filterMap Effect.flush? := by
  have hnil : ∀ {part : List Effect} {n : Nat}, n ≠ 2 → (∀ e ∈ part, e.phase = n) →
      part.filterMap Effect.flush? = [] := fun hn hpart =>
    List.filterMap_eq_nil_iff.mpr fun e he => Effect.flush?_eq_none (by rwa [hpart e he])
  rw [List.filterMap_append, List.filterMap_append, List.filterMap_append,
    hnil (by decide) h.begun_phase, hnil (by decide) h.told_phase,
    hnil (by decide) h.undone_phase, List.nil_append, List.nil_append, List.append_nil]

end InParts

end DmaBurst
