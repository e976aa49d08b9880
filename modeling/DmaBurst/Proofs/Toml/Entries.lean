import DmaBurst.Toml.Tree
import Mathlib.Data.List.Nodup
import Mathlib.Data.Option.Basic

namespace DmaBurst.Toml

inductive Value.Distinct : Value → Prop where
  | string (s : String) : Distinct (.string s)
  | integer (n : Int) : Distinct (.integer n)
  | float : Distinct .float
  | boolean (b : Bool) : Distinct (.boolean b)
  | date : Distinct .date
  | array {items : List Value} : (∀ v ∈ items, v.Distinct) → Distinct (.array items)
  | table {entries : List (String × Value)} : (entries.map Prod.fst).Nodup →
    (∀ e ∈ entries, e.2.Distinct) → Distinct (.table entries)

inductive Node.Distinct : Node → Prop where
  | leaf {v : Value} : v.Distinct → Distinct (.leaf v)
  | table {implicit dotted : Bool} {entries : Entries} : (entries.map Prod.fst).Nodup →
    (∀ e ∈ entries, e.2.Distinct) → Distinct (.table implicit dotted entries)
  | tables {last : Entries} {earlier : List Entries} : (last.map Prod.fst).Nodup →
    (∀ e ∈ last, e.2.Distinct) → (∀ es ∈ earlier, (es.map Prod.fst).Nodup) →
    (∀ es ∈ earlier, ∀ e ∈ es, e.2.Distinct) → Distinct (.tables last earlier)

theorem closeEntries_eq (es : Entries) : closeEntries es = es.map fun e => (e.1, e.2.close) := by
  induction es with
  | nil => rfl
  | cons e es ih => rw [closeEntries, ih, List.map_cons]

theorem closeTables_eq (ts : List Entries) (done : List Value) :
    closeTables ts done = (ts.map fun es => .table (closeEntries es)).reverse ++ done := by
  induction ts generalizing done with
  | nil => rfl
  | cons es ts ih => rw [closeTables, ih, List.map_cons, List.reverse_cons, List.append_assoc]; rfl

theorem distinct_closeEntries {es : Entries} (hk : (es.map Prod.fst).Nodup)
    (hn : ∀ e ∈ es, e.2.close.Distinct) : (Value.table (closeEntries es)).Distinct := by
  rw [closeEntries_eq]
  refine .table (by simpa [Function.comp_def] using hk) fun e he => ?_
  obtain ⟨e', he', rfl⟩ := List.mem_map.mp he
  exact hn e' he'

theorem Node.Distinct.close {n : Node} (h : n.Distinct) : n.close.Distinct := by
  induction h with
  | leaf hv => exact hv
  | table hk _ ih =>
    rw [Node.close]
    exact distinct_closeEntries hk ih
  | tables hk _ hks _ ih ihs =>
    rw [Node.close, closeTables_eq]
    refine .array fun v hv => ?_
    obtain hv | hv := List.mem_append.mp hv
    · obtain ⟨es, hes, rfl⟩ := List.mem_map.mp (List.mem_reverse.mp hv)
      exact distinct_closeEntries (hks es hes) (ihs es hes)
    · rw [List.mem_singleton.mp hv]
      exact distinct_closeEntries hk ih

namespace Entries

/-- The entries of one table: each key once, and the same of every table below. -/
structure Distinct (es : Entries) : Prop where
  keys : (es.map Prod.fst).Nodup
  nodes : ∀ e ∈ es, e.2.Distinct

variable {es es' : Entries} {k : String} {n : Node}

theorem distinct_nil : Distinct [] :=
  ⟨List.nodup_nil, fun _ he => absurd he List.not_mem_nil⟩

theorem Distinct.close (h : es.Distinct) : (Value.table (closeEntries es)).Distinct :=
  distinct_closeEntries h.keys fun e he => (h.nodes e he).close

theorem Distinct.lookup (h : es.Distinct) (hn : List.lookup k es = some n) : n.Distinct := by
  obtain ⟨before, after, rfl, -⟩ := List.lookup_eq_some_iff.mp hn
  exact h.nodes (k, n) (by simp)

theorem map_fst_put :
    (es.put k n).map Prod.fst =
      if (List.lookup k es).isSome then es.map Prod.fst else es.map Prod.fst ++ [k] := by
  rw [put]
  split
  · rw [List.map_map]
    refine List.map_congr_left fun e _ => ?_
    rw [Function.comp_apply]
    split
    · next h => exact h.symm
    · rfl
  · simp

theorem mem_put {e : String × Node} (he : e ∈ es.put k n) : e ∈ es ∨ e.2 = n := by
  rw [put] at he
  split at he
  · obtain ⟨e', he', rfl⟩ := List.mem_map.mp he
    split
    · exact .inr rfl
    · exact .inl he'
  · obtain he | he := List.mem_append.mp he
    · exact .inl he
    · exact .inr (congrArg Prod.snd (List.mem_singleton.mp he))

theorem Distinct.put (h : es.Distinct) (hn : n.Distinct) : (es.put k n).Distinct := by
  constructor
  · rw [map_fst_put]
    split
    · exact h.keys
    · next hk =>
      rw [List.nodup_append_comm, List.singleton_append, List.nodup_cons]
      refine ⟨fun hm => hk ?_, h.keys⟩
      obtain ⟨e, he, rfl⟩ := List.mem_map.mp hm
      exact List.lookup_isSome_iff.mpr ⟨e, he, beq_self_eq_true e.1⟩
  · intro e he
    obtain he | he := mem_put he
    · exact h.nodes e he
    · exact he ▸ hn

theorem Distinct.descend {dotted : Bool} {f : Bool → Entries → Option Entries}
    (hf : ∀ {b : Bool} {es es' : Entries}, es.Distinct → f b es = some es' → es'.Distinct)
    {path : List String} {isDotted : Bool} (h : es.Distinct)
    (hd : descend dotted f path isDotted es = some es') : es'.Distinct := by
  induction path generalizing es es' isDotted with
  | nil => exact hf h hd
  | cons k path ih =>
    rw [Entries.descend] at hd
    split at hd
    · obtain ⟨child, hchild, hput⟩ := Option.bind_eq_some_iff.mp hd
      cases hput
      have hc := ih distinct_nil hchild
      exact h.put (.table hc.keys hc.nodes)
    · next hlookup =>
      obtain ⟨-, -, hd⟩ := Option.bind_eq_some_iff.mp hd
      obtain ⟨child, hchild, hput⟩ := Option.bind_eq_some_iff.mp hd
      cases hput
      cases h.lookup hlookup with
      | table hkeys hnodes =>
        have hc := ih ⟨hkeys, hnodes⟩ hchild
        exact h.put (.table hc.keys hc.nodes)
    · next hlookup =>
      obtain ⟨last, hlast, hput⟩ := Option.bind_eq_some_iff.mp hd
      cases hput
      cases h.lookup hlookup with
      | tables hkeys hnodes hkeys' hnodes' =>
        have hc := ih ⟨hkeys, hnodes⟩ hlast
        exact h.put (.tables hc.keys hc.nodes hkeys' hnodes')
    · cases hd

theorem Distinct.addValue {path : List String} {v : Value} (h : es.Distinct) (hv : v.Distinct)
    (ha : addValue path k v es = some es') : es'.Distinct := by
  refine h.descend (fun {b es es'} h hf => ?_) ha
  obtain ⟨-, -, hput⟩ := Option.bind_eq_some_iff.mp hf
  cases hput
  exact h.put (.leaf hv)

theorem Distinct.addAll {pairs : List ((List String × String) × Value)} (h : es.Distinct)
    (hp : ∀ p ∈ pairs, p.2.Distinct) (ha : addAll pairs es = some es') : es'.Distinct := by
  induction pairs generalizing es with
  | nil =>
    cases ha
    exact h
  | cons p pairs ih =>
    rw [Entries.addAll, List.foldlM_cons] at ha
    obtain ⟨next, hnext, hrest⟩ := Option.bind_eq_some_iff.mp ha
    exact ih (h.addValue (hp p List.mem_cons_self) hnext)
      (fun q hq => hp q (List.mem_cons_of_mem p hq)) hrest

theorem Distinct.addTable {path : List String} {pairs : List ((List String × String) × Value)}
    (h : es.Distinct) (hp : ∀ p ∈ pairs, p.2.Distinct)
    (ha : addTable path k pairs es = some es') : es'.Distinct := by
  refine h.descend (fun {b es es'} h hf => ?_) ha
  split at hf
  · obtain ⟨child, hchild, hput⟩ := Option.bind_eq_some_iff.mp hf
    cases hput
    have hc := distinct_nil.addAll hp hchild
    exact h.put (.table hc.keys hc.nodes)
  · next hlookup =>
    obtain ⟨child, hchild, hput⟩ := Option.bind_eq_some_iff.mp hf
    cases hput
    cases h.lookup hlookup with
    | table hkeys hnodes =>
      have hc := Distinct.addAll ⟨hkeys, hnodes⟩ hp hchild
      exact h.put (.table hc.keys hc.nodes)
  · cases hf

theorem Distinct.addToArray {path : List String} {pairs : List ((List String × String) × Value)}
    (h : es.Distinct) (hp : ∀ p ∈ pairs, p.2.Distinct)
    (ha : addToArray path k pairs es = some es') : es'.Distinct := by
  refine h.descend (fun {b es es'} h hf => ?_) ha
  split at hf
  · obtain ⟨last, hlast, hput⟩ := Option.bind_eq_some_iff.mp hf
    cases hput
    have hc := distinct_nil.addAll hp hlast
    exact h.put (.tables hc.keys hc.nodes (fun _ he => absurd he List.not_mem_nil)
      fun _ he => absurd he List.not_mem_nil)
  · next hlookup =>
    obtain ⟨last, hlast, hput⟩ := Option.bind_eq_some_iff.mp hf
    cases hput
    cases h.lookup hlookup with
    | tables hkeys hnodes hkeys' hnodes' =>
      have hc := distinct_nil.addAll hp hlast
      exact h.put (.tables hc.keys hc.nodes
        (List.forall_mem_cons.mpr ⟨hkeys, hkeys'⟩) (List.forall_mem_cons.mpr ⟨hnodes, hnodes'⟩))
  · cases hf

end Entries

end DmaBurst.Toml
