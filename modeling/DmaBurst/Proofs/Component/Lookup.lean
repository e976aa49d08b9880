import DmaBurst.Card.Component
import Mathlib.Data.List.Basic

namespace DmaBurst

/-- The component at this position is the one of its name that this index counts. -/
def Denotes (components : List String) (compatible : String) (index position : Nat) : Prop :=
  components[position]? = some compatible ∧ (components.take position).count compatible = index

namespace Denotes

variable {components : List String} {c c' : String} {k k' p p' : Nat}

theorem lt_length (h : Denotes components c k p) : p < components.length :=
  (List.getElem?_eq_some_iff.mp h.1).1

theorem unique (h : Denotes components c k p) (h' : Denotes components c' k' p) :
    c = c' ∧ k = k' := by
  obtain ⟨hget, rfl⟩ := h
  obtain ⟨hget', rfl⟩ := h'
  cases hget.symm.trans hget'
  exact ⟨rfl, rfl⟩

theorem of_lt_length (h : p < components.length) :
    Denotes components components[p] ((components.take p).count components[p]) p :=
  ⟨List.getElem?_eq_getElem h, rfl⟩

theorem cons_zero {first : String} :
    Denotes (first :: components) c k 0 ↔ first = c ∧ k = 0 := by
  simp [Denotes, eq_comm]

theorem cons_succ {first : String} :
    Denotes (first :: components) c k (p + 1) ↔
      ∃ j, Denotes components c j p ∧ k = if first = c then j + 1 else j := by
  rw [Denotes, List.getElem?_cons_succ, List.take_succ_cons, List.count_cons]
  constructor
  · rintro ⟨hget, rfl⟩
    refine ⟨_, ⟨hget, rfl⟩, ?_⟩
    by_cases h : first = c <;> simp [h]
  · rintro ⟨j, ⟨hget, rfl⟩, rfl⟩
    refine ⟨hget, ?_⟩
    by_cases h : first = c <;> simp [h]

theorem exists_cons {first : String} {n : Nat} :
    (∃ i, p = n + i ∧ Denotes (first :: components) c k i) ↔
      (p = n ∧ first = c ∧ k = 0) ∨
        ∃ i j, p = n + 1 + i ∧ Denotes components c j i ∧ k = if first = c then j + 1 else j := by
  constructor
  · rintro ⟨_ | i, rfl, hi⟩
    · exact .inl ⟨rfl, cons_zero.mp hi⟩
    · obtain ⟨j, hj, rfl⟩ := cons_succ.mp hi
      exact .inr ⟨i, j, by omega, hj, rfl⟩
  · rintro (⟨rfl, hi⟩ | ⟨i, j, rfl, hj, rfl⟩)
    · exact ⟨0, rfl, cons_zero.mpr hi⟩
    · exact ⟨i + 1, by omega, cons_succ.mpr ⟨j, hj, rfl⟩⟩

end Denotes

/-- The positions that a name is found at, if the components are numbered from `n` on. -/
theorem getElem?_positions (components : List String) (c : String) (n k p : Nat) :
    (((components.zipIdx n).filter (·.1 == c)).map (·.2))[k]? = some p ↔
      ∃ i, p = n + i ∧ Denotes components c k i := by
  induction components generalizing n k with
  | nil => simp [Denotes]
  | cons first components ih =>
    rw [Denotes.exists_cons, List.zipIdx_cons]
    by_cases hc : first = c
    · rw [List.filter_cons_of_pos (by simp [hc]), List.map_cons]
      cases k with
      | zero => simp [hc, eq_comm]
      | succ k =>
        rw [List.getElem?_cons_succ, ih]
        simp [hc]
    · rw [List.filter_cons_of_neg (by simp [hc]), ih]
      simp [hc]

theorem length_positions (components : List String) (c : String) (n : Nat) :
    (((components.zipIdx n).filter (·.1 == c)).map (·.2)).length = components.count c := by
  have hnames := congrArg (List.count c) (List.zipIdx_map_fst n components)
  rw [List.count, List.countP_map] at hnames
  rw [List.length_map, ← List.countP_eq_length_filter]
  exact hnames

namespace Component

theorem offsetOf_injective {p p' : Nat} (h : offsetOf p = offsetOf p') : p = p' := by
  simp only [offsetOf, stride] at h
  omega

theorem positionOf?_eq_some_iff {offset p : Nat} :
    positionOf? offset = some p ↔ offset = offsetOf p := by
  rw [positionOf?, Option.ite_none_right_eq_some, Option.some.injEq, offsetOf, base, stride]
  omega

end Component

namespace Card

open Component

variable {card : Card} {c c' : String} {k k' offset : Nat}

theorem getElem?_componentsLike {p : Nat} :
    (card.componentsLike c)[k]? = some p ↔ Denotes card.spec.components c k p := by
  rw [componentsLike, getElem?_positions]
  simp

theorem findComponent_eq_ok_iff :
    card.findComponent c k = .ok offset ↔
      ∃ p, offset = offsetOf p ∧ Denotes card.spec.components c k p := by
  simp only [← getElem?_componentsLike, findComponent]
  cases (card.componentsLike c)[k]? with
  | none => simp
  | some p => simp [eq_comm]

theorem exists_findComponent_iff :
    (∃ offset, card.findComponent c k = .ok offset) ↔ k < card.spec.components.count c := by
  rw [← length_positions card.spec.components c 0, ← componentsLike, findComponent]
  cases h : (card.componentsLike c)[k]? with
  | none => simpa using List.getElem?_eq_none_iff.mp h
  | some p => simpa using (List.getElem?_eq_some_iff.mp h).1

theorem findComponent_unique (h : card.findComponent c k = .ok offset)
    (h' : card.findComponent c' k' = .ok offset) : c = c' ∧ k = k' := by
  obtain ⟨p, rfl, hp⟩ := findComponent_eq_ok_iff.mp h
  obtain ⟨p', heq, hp'⟩ := findComponent_eq_ok_iff.mp h'
  cases offsetOf_injective heq
  exact hp.unique hp'

theorem openComponent_offsetOf {p : Nat} (hp : p < card.registers.size) :
    card.openComponent (offsetOf p) =
      .ok (⟨offsetOf p, p⟩, card.record (.componentOpened (offsetOf p))) := by
  rw [openComponent, positionOf?_eq_some_iff.mpr rfl, Option.filter_some_pos (by simpa using hp)]

theorem openComponent_eq_ok {card' : Card} {component : Component}
    (h : card.openComponent offset = .ok (component, card')) :
    offset = offsetOf component.position ∧ component.offset = offset ∧
      component.position < card.registers.size ∧
      card' = card.record (.componentOpened offset) := by
  rw [openComponent] at h
  split at h
  · next p hp =>
    obtain ⟨hp, hlt⟩ := Option.filter_eq_some_iff.mp hp
    cases h
    exact ⟨positionOf?_eq_some_iff.mp hp, rfl, of_decide_eq_true hlt, rfl⟩
  · cases h

theorem exists_openComponent_iff (hsize : card.registers.size = card.spec.components.length) :
    (∃ opened, card.openComponent offset = .ok opened) ↔
      ∃ c k, card.findComponent c k = .ok offset := by
  constructor
  · rintro ⟨⟨component, card'⟩, h⟩
    obtain ⟨hoffset, -, hlt, -⟩ := openComponent_eq_ok h
    exact ⟨_, _, findComponent_eq_ok_iff.mpr ⟨_, hoffset, Denotes.of_lt_length (hsize ▸ hlt)⟩⟩
  · rintro ⟨c, k, h⟩
    obtain ⟨p, rfl, hp⟩ := findComponent_eq_ok_iff.mp h
    exact ⟨_, openComponent_offsetOf (hsize ▸ hp.lt_length)⟩

end Card

end DmaBurst
