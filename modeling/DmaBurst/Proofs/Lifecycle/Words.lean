import DmaBurst.Proofs.Run.Teardown
import DmaBurst.Proofs.Contract.Calls
import Mathlib.Computability.Language

namespace DmaBurst

open Computability

def Event.queue? : Event → Option QueueId
  | .queueOpened q | .queueStarted q | .queueStopped q | .queueClosed q => some q
  | _ => none

def Event.ofDevice : Event → Bool
  | .deviceOpened | .deviceClosed => true
  | _ => false

def Card.queueJournal (q : QueueId) (card : Card) : List Event :=
  card.journal.filter (·.queue? = some q)

def Card.deviceJournal (card : Card) : List Event :=
  card.journal.filter Event.ofDevice

def starts (q : QueueId) : Language Event :=
  ({[.queueStarted q]} * {[.queueStopped q]})∗

/-- Whole lives of a queue, one after the other: it is opened, started and stopped any number of
times, and closed. -/
def queueLives (q : QueueId) : Language Event :=
  ({[.queueOpened q]} * starts q * {[.queueClosed q]})∗

def deviceLives : Language Event :=
  ({[.deviceOpened]} * {[.deviceClosed]})∗

def upTo (q : QueueId) : QueueState → Language Event
  | .closed => queueLives q
  | .opened | .stopped => queueLives q * ({[.queueOpened q]} * starts q)
  | .started => queueLives q * ({[.queueOpened q]} * starts q) * {[.queueStarted q]}

def deviceUpTo : Bool → Language Event
  | false => deviceLives
  | true => deviceLives * {[.deviceOpened]}

section Words

variable {q : QueueId} {w : List Event}

theorem append_event {L : Language Event} (e : Event) (h : w ∈ L) : w ++ [e] ∈ L * {[e]} :=
  Language.append_mem_mul h rfl

theorem append_opened (h : w ∈ upTo q .closed) : w ++ [.queueOpened q] ∈ upTo q .opened := by
  refine Language.append_mem_mul h ?_
  rw [← List.append_nil [Event.queueOpened q]]
  exact Language.append_mem_mul rfl (Language.nil_mem_kstar _)

theorem append_started (h : w ∈ upTo q .opened) : w ++ [.queueStarted q] ∈ upTo q .started :=
  append_event _ h

theorem append_stopped (h : w ∈ upTo q .started) : w ++ [.queueStopped q] ∈ upTo q .stopped := by
  have hle : upTo q .started * {[.queueStopped q]} ≤ upTo q .stopped := by
    calc queueLives q * ({[.queueOpened q]} * starts q) * {[.queueStarted q]} * {[.queueStopped q]}
        = queueLives q * ({[.queueOpened q]} *
            (starts q * ({[.queueStarted q]} * {[.queueStopped q]}))) := by simp only [mul_assoc]
      _ ≤ queueLives q * ({[.queueOpened q]} * starts q) :=
          mul_le_mul_right (mul_le_mul_right kstar_mul_le_kstar _) _
  exact hle (append_event _ h)

theorem append_closed (h : w ∈ upTo q .opened) : w ++ [.queueClosed q] ∈ upTo q .closed := by
  have hle : upTo q .opened * {[.queueClosed q]} ≤ upTo q .closed := by
    calc queueLives q * ({[.queueOpened q]} * starts q) * {[.queueClosed q]}
        = queueLives q * ({[.queueOpened q]} * starts q * {[.queueClosed q]}) := mul_assoc _ _ _
      _ ≤ queueLives q := kstar_mul_le_kstar
  exact hle (append_event _ h)

theorem append_deviceClosed (h : w ∈ deviceUpTo true) : w ++ [.deviceClosed] ∈ deviceLives := by
  have hle : deviceUpTo true * {[.deviceClosed]} ≤ deviceLives := by
    calc deviceLives * {[.deviceOpened]} * {[.deviceClosed]}
        = deviceLives * ({[.deviceOpened]} * {[.deviceClosed]}) := mul_assoc _ _ _
      _ ≤ deviceLives := kstar_mul_le_kstar
  exact hle (append_event _ h)

theorem prefix_mem_queueLives {s : QueueState} (h : w ∈ upTo q s) :
    ∃ w' ∈ queueLives q, w <+: w' := by
  cases s with
  | closed => exact ⟨w, h, List.prefix_rfl⟩
  | opened | stopped => exact ⟨_, append_closed h, List.prefix_append _ _⟩
  | started =>
    exact ⟨_, append_closed (append_stopped h), (List.prefix_append _ _).trans
      (List.prefix_append _ _)⟩

theorem prefix_mem_deviceLives {isOpen : Bool} (h : w ∈ deviceUpTo isOpen) :
    ∃ w' ∈ deviceLives, w <+: w' := by
  cases isOpen with
  | false => exact ⟨w, h, List.prefix_rfl⟩
  | true => exact ⟨_, append_deviceClosed h, List.prefix_append _ _⟩

end Words

structure Leads (q : QueueId) (s s' : QueueState) (events : List Event) : Prop where
  own : ∀ e ∈ events, e.queue? = some q
  append : ∀ w ∈ upTo q s, w ++ events ∈ upTo q s'

namespace Leads

variable {q : QueueId} {s s' s'' : QueueState} {events more : List Event}

theorem refl (q : QueueId) (s : QueueState) : Leads q s s [] :=
  ⟨fun _ h => absurd h List.not_mem_nil, fun w h => (List.append_nil w).symm ▸ h⟩

theorem trans (h : Leads q s s' events) (h' : Leads q s' s'' more) :
    Leads q s s'' (events ++ more) := by
  refine ⟨fun e he => ?_, fun w hw => ?_⟩
  · rcases List.mem_append.mp he with he | he
    · exact h.own e he
    · exact h'.own e he
  · rw [← List.append_assoc]
    exact h'.append _ (h.append w hw)

theorem single {e : Event} (he : e.queue? = some q) (h : ∀ w ∈ upTo q s, w ++ [e] ∈ upTo q s') :
    Leads q s s' [e] :=
  ⟨fun _ hm => List.mem_singleton.mp hm ▸ he, h⟩

end Leads

end DmaBurst
