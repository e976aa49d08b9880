import DmaBurst.Io.Scripted
import DmaBurst.Run.Receive
import Mathlib.Tactic.SplitIfs

namespace DmaBurst

/-- What a queue owes over all iterations when it owes `packets` in each, counted without bound. -/
def RxConfig.owed (rx : RxConfig) (packets : UInt32) : Int :=
  packets.toNat * rx.iterations.toNat

namespace Config

variable {c : Config}

theorem of_validate (h : c.validate = .ok ()) :
    c.rx.iterations ≠ 0 ∧ c.rx.packetsPerIteration.findIdx? (· = 0) = none := by
  have hnone : c.firstInvalid = none := by
    rw [validate] at h
    split at h
    · cases h
    · assumption
  rw [firstInvalid] at hnone
  refine ⟨fun hn => ?_, ?_⟩
  · rw [if_pos hn] at hnone
    split at hnone
    · cases hnone
    · split at hnone <;> cases hnone
  · cases hidle : c.rx.packetsPerIteration.findIdx? (· = 0) with
    | none => rfl
    | some index =>
      rw [hidle] at hnone
      split_ifs at hnone

theorem owed_pos (h : c.validate = .ok ()) {packets : UInt32}
    (hp : packets ∈ c.rx.packetsPerIteration) : 0 < c.rx.owed packets := by
  obtain ⟨hiterations, hidle⟩ := of_validate h
  have hpackets : packets ≠ 0 := by
    simpa using List.findIdx?_eq_none_iff.mp hidle packets hp
  have h0 : packets.toNat ≠ 0 := fun hn => hpackets (UInt32.toNat_inj.mp hn)
  have h1 : c.rx.iterations.toNat ≠ 0 := fun hn => hiterations (UInt32.toNat_inj.mp hn)
  exact Int.mul_pos (by omega) (by omega)

end Config

namespace RxConfig

variable (rx : RxConfig)

theorem checked_owed (packets : UInt32) :
    checked .multiplyOverflow (rx.owed packets) =
      if rx.owed packets ≤ budgetMax then .ok (rx.owed packets) else .error .multiplyOverflow := by
  have hmin : budgetMin ≤ rx.owed packets := by
    have : (0 : Int) ≤ rx.owed packets := Int.mul_nonneg (by omega) (by omega)
    simp only [budgetMin]
    omega
  simp only [checked, hmin, true_and]

def fits : Bool :=
  rx.packetsPerIteration.all fun packets => rx.owed packets ≤ budgetMax

theorem fits_iff :
    rx.fits = true ↔ ∀ packets ∈ rx.packetsPerIteration, rx.owed packets ≤ budgetMax := by
  simp [fits]

/-- The budgets are the exact products, unless one of them is out of range. -/
theorem budgets_eq :
    rx.budgets = if rx.fits then .ok (rx.packetsPerIteration.map rx.owed)
      else .error .multiplyOverflow := by
  change rx.packetsPerIteration.mapM (fun packets =>
    checked .multiplyOverflow (rx.owed packets)) = _
  rw [fits]
  induction rx.packetsPerIteration with
  | nil => rfl
  | cons packets rest ih =>
    rw [List.mapM_cons, checked_owed, ih, List.all_cons]
    by_cases hfirst : rx.owed packets ≤ budgetMax
    · rw [if_pos hfirst, decide_eq_true hfirst, Bool.true_and]
      split <;> rfl
    · rw [if_neg hfirst, decide_eq_false hfirst, Bool.false_and]
      rfl

end RxConfig

theorem Config.budget_bounds {c : Config} (h : c.validate = .ok ()) {budgets : List Int}
    (hb : c.rx.budgets = .ok budgets) : ∀ b ∈ budgets, 0 < b ∧ b ≤ budgetMax := by
  rw [RxConfig.budgets_eq] at hb
  split at hb
  · next hfits =>
    cases hb
    exact List.forall_mem_map.mpr fun packets hp =>
      ⟨c.owed_pos h hp, c.rx.fits_iff.mp hfits packets hp⟩
  · cases hb

namespace Receive

variable {σ : Type}

theorem budget_mem {c : Config} {queues : List Queue} {sinks : List σ} {budgets : List Int}
    {w : RxWorker σ} (hw : w ∈ workers c queues sinks budgets) :
    ∃ b ∈ budgets, w.budget = .new b := by
  induction queues, sinks, budgets using workers.induct with
  | case1 queue queues sink sinks budget budgets ih =>
    rw [workers] at hw
    cases hw with
    | head => exact ⟨budget, List.mem_cons_self, rfl⟩
    | tail _ hw =>
      obtain ⟨b, hb, he⟩ := ih hw
      exact ⟨b, List.mem_cons_of_mem _ hb, he⟩
  | case2 queues sinks budgets hn =>
    rw [workers] at hw
    · cases hw
    · exact hn

/-- Budgets are the exact products, or the run ends in a fault after everything has been opened and
started, and gives it all back. -/
theorem budgets_exact_or_fault (c : Config) (h : c.validate = .ok ()) :
    ((∀ packets ∈ c.rx.packetsPerIteration, c.rx.owed packets ≤ budgetMax) →
      c.rx.budgets = .ok (c.rx.packetsPerIteration.map c.rx.owed) ∧
      ∀ (σ : Type) (queues : List Queue) (sinks : List σ),
        ∀ w ∈ workers c queues sinks (c.rx.packetsPerIteration.map c.rx.owed),
          0 < w.budget.remaining) ∧
    ((∃ packets ∈ c.rx.packetsPerIteration, budgetMax < c.rx.owed packets) →
      c.rx.budgets = .error .multiplyOverflow ∧
      ∀ (σ η : Type) [ByteSink σ] [Hardware η] (shutdown : Bool) (sinks : List σ) (h : η)
        (card card' : Card) (s : Session), sinks.length = c.rx.queueCount →
        Session.setup c.device .rx c.rx.queueCount
          (if c.rx.reset.enabled then some c.rx.reset else none) card = (.ok s, card') →
        run c shutdown sinks h card =
          (.error (.fault .multiplyOverflow), sinks, h,
            s.teardown (s.pulse c.rx.reset card'))) := by
  constructor
  · intro hfit
    refine ⟨by rw [RxConfig.budgets_eq, if_pos (c.rx.fits_iff.mpr hfit)],
      fun σ queues sinks w hw => ?_⟩
    obtain ⟨b, hb, he⟩ := budget_mem hw
    obtain ⟨packets, hp, rfl⟩ := List.mem_map.mp hb
    rw [he]
    exact c.owed_pos h hp
  · rintro ⟨packets, hp, hover⟩
    have hb : c.rx.budgets = .error .multiplyOverflow := by
      rw [RxConfig.budgets_eq, if_neg fun hfits => ?_]
      exact absurd (c.rx.fits_iff.mp hfits packets hp) (by omega)
    refine ⟨hb, fun σ η _ _ shutdown sinks h' card card' s hlen hs => ?_⟩
    rw [run, runBy, h]
    simp only [hlen, ne_eq, not_true_eq_false, if_false, Ground.onCard_card, hs, driveBy, hb]

/-- One queue and one iteration count, both at the end of what the document format holds. -/
def widest : Config where
  rx := { iterations := 4294967295, packetsPerIteration := [4294967295] }

theorem budgets_exact_of_default :
    ({} : Config).validate = .ok () ∧ ({} : Config).rx.budgets =
        .ok [108, 108, 108, 108, 108, 84, 84, 90, 90, 108, 108, 108, 108, 108, 108] ∧
      widest.validate = .ok () ∧ widest.rx.budgets = .error .multiplyOverflow := by
  obtain ⟨hfit, -⟩ := budgets_exact_or_fault {} rfl
  obtain ⟨-, hover⟩ := budgets_exact_or_fault widest rfl
  refine ⟨rfl, (hfit ((RxConfig.fits_iff _).mp rfl)).1, rfl, (hover ?_).1⟩
  exact ⟨4294967295, List.mem_cons_self, by decide⟩

theorem widest_budget_overflows :
    widest.validate = .ok () ∧ widest.rx.owed 4294967295 = 18446744065119617025 ∧
      widest.rx.budgets = .error .multiplyOverflow ∧
      ∃ card, Card.create { rxQueues := 1, txQueues := 0, ringCapacity := 2, slotSize := 2 } =
          .ok card ∧
        (run widest false ([{}] : List ScriptedSink) () card).1 =
          .error (.fault .multiplyOverflow) ∧
        (run widest false ([{}] : List ScriptedSink) () card).2.2.2.journal =
          [.deviceOpened, .componentOpened 0x8000, .queueOpened ⟨.rx, 0⟩, .queueStarted ⟨.rx, 0⟩,
            .registerWrite 0x8000 0 1, .queueStopped ⟨.rx, 0⟩, .queueClosed ⟨.rx, 0⟩,
            .componentClosed 0x8000, .deviceClosed] := by
  refine ⟨rfl, by decide, rfl, _, rfl, rfl, ?_⟩
  decide +kernel

end Receive

end DmaBurst
