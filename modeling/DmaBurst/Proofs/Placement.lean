import DmaBurst.Placement
import Mathlib.Data.List.Nodup

namespace DmaBurst

namespace Placement

variable {p : Placement} {index : Nat}

theorem coreFor_of_length_le (h : p.cores.length ≤ index) : p.coreFor index = none := by
  rw [coreFor, List.getElem?_eq_none h, Option.join_none]

@[simp] theorem length_unpinned (workers : Nat) : (unpinned workers).cores.length = workers :=
  List.length_replicate

@[simp] theorem coreFor_unpinned (workers index : Nat) :
    (unpinned workers).coreFor index = none := by
  rw [coreFor, unpinned, List.getElem?_replicate]
  split <;> rfl

theorem coreFor_map_some (cores : List Nat) (strategy : PlacementStrategy) (index : Nat) :
    coreFor index ⟨cores.map some, strategy⟩ = cores[index]? := by
  rw [coreFor, List.getElem?_map]
  cases cores[index]? <;> rfl

end Placement

namespace CpuTopology

variable {t : CpuTopology} {workers : Nat}

theorem strategyFor_eq_noPin_iff :
    t.strategyFor workers = .noPin ↔ t.availableCores.length < workers := by
  grind [strategyFor]

theorem strategyFor_eq_dedicated_iff :
    t.strategyFor workers = .dedicated ↔
      workers ≤ t.physicalCores ∧ workers ≤ t.availableCores.length := by
  grind [strategyFor]

theorem strategyFor_eq_smtShare_iff :
    t.strategyFor workers = .smtShare ↔
      t.physicalCores < workers ∧ workers ≤ t.availableCores.length := by
  grind [strategyFor]

theorem place_of_le (h : workers ≤ t.availableCores.length) :
    t.place workers = ⟨(t.availableCores.take workers).map some, t.strategyFor workers⟩ := by
  rw [place]
  split
  · next hn => exact absurd (strategyFor_eq_noPin_iff.mp hn) (Nat.not_lt.mpr h)
  · rfl

theorem place_of_lt (h : t.availableCores.length < workers) :
    t.place workers = .unpinned workers := by
  rw [place, strategyFor_eq_noPin_iff.mpr h]

theorem length_cores_place (t : CpuTopology) (workers : Nat) :
    (t.place workers).cores.length = workers := by
  obtain hlt | hle := Nat.lt_or_ge t.availableCores.length workers
  · rw [place_of_lt hlt, Placement.length_unpinned]
  · rw [place_of_le hle, List.length_map, List.length_take, Nat.min_eq_left hle]

theorem coreFor_place (h : workers ≤ t.availableCores.length) {index : Nat}
    (hi : index < workers) : (t.place workers).coreFor index = t.availableCores[index]? := by
  rw [place_of_le h, Placement.coreFor_map_some, List.getElem?_take_of_lt hi]

theorem coreFor_place_inj (h : workers ≤ t.availableCores.length) (hd : t.availableCores.Nodup)
    {i j : Nat} (hi : i < workers) (hj : j < workers)
    (hij : (t.place workers).coreFor i = (t.place workers).coreFor j) : i = j := by
  rw [coreFor_place h hi, coreFor_place h hj] at hij
  exact (List.getElem?_inj (by omega) hd).mp hij

end CpuTopology

namespace CpuPolicy

variable {t : CpuTopology} {workers : Nat} {cores : List Nat}

theorem length_cores_manual : ((manual cores).resolve t workers).cores.length = workers := by
  simp [resolve]

theorem coreFor_manual {index : Nat} (h : index < workers) :
    ((manual cores).resolve t workers).coreFor index = cores[index]? := by
  simp [resolve, Placement.coreFor, h]

end CpuPolicy

/-- With cores enough, worker by worker the available cores are given out; otherwise nobody is
pinned. Listed cores go to the first workers, and the others are not pinned. -/
theorem workers_placed (t : CpuTopology) (workers : Nat) :
    (t.place workers).cores.length = workers ∧
    (workers ≤ t.availableCores.length →
      (∀ i < workers, ∃ core, t.availableCores[i]? = some core ∧
        (t.place workers).coreFor i = some core) ∧
      (t.availableCores.Nodup → ∀ i < workers, ∀ j < workers, i ≠ j →
        (t.place workers).coreFor i ≠ (t.place workers).coreFor j) ∧
      (t.place workers).strategy =
        if workers ≤ t.physicalCores then .dedicated else .smtShare) ∧
    (t.availableCores.length < workers →
      (t.place workers).strategy = .noPin ∧ ∀ i, (t.place workers).coreFor i = none) ∧
    (∀ i ≥ workers, (t.place workers).coreFor i = none) ∧
    ∀ cores : List Nat,
      ((CpuPolicy.manual cores).resolve t workers).cores.length = workers ∧
      (∀ i < workers, ((CpuPolicy.manual cores).resolve t workers).coreFor i = cores[i]?) ∧
      ∀ i ≥ workers, ((CpuPolicy.manual cores).resolve t workers).coreFor i = none := by
  refine ⟨t.length_cores_place workers, fun hle => ⟨fun i hi => ?_, ?_, ?_⟩, fun hlt => ?_,
    fun i hi => ?_, fun cores => ⟨CpuPolicy.length_cores_manual, fun i hi => ?_, fun i hi => ?_⟩⟩
  · have hcore := List.getElem?_eq_getElem (Nat.lt_of_lt_of_le hi hle)
    exact ⟨_, hcore, (CpuTopology.coreFor_place hle hi).trans hcore⟩
  · intro hd i hi j hj hne hij
    exact hne (CpuTopology.coreFor_place_inj hle hd hi hj hij)
  · rw [CpuTopology.place_of_le hle]
    split
    · next hp => exact CpuTopology.strategyFor_eq_dedicated_iff.mpr ⟨hp, hle⟩
    · next hp => exact CpuTopology.strategyFor_eq_smtShare_iff.mpr ⟨Nat.lt_of_not_le hp, hle⟩
  · rw [CpuTopology.place_of_lt hlt]
    exact ⟨rfl, Placement.coreFor_unpinned workers⟩
  · exact Placement.coreFor_of_length_le (by rwa [CpuTopology.length_cores_place])
  · exact CpuPolicy.coreFor_manual hi
  · exact Placement.coreFor_of_length_le (by rwa [CpuPolicy.length_cores_manual])

example :
    (CpuTopology.place 2 ⟨4, [3, 3]⟩).coreFor 0 = (CpuTopology.place 2 ⟨4, [3, 3]⟩).coreFor 1 := by
  decide

end DmaBurst
