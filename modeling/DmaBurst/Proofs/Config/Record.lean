import DmaBurst.Proofs.Config.Values
import DmaBurst.Proofs.Toml.Entries

namespace DmaBurst.Config

open Toml (Value)

/-- A setting of a record: its key in a document, which value means what, and where it stands in the
record. -/
structure Setting (α : Type) where
  {β : Type}
  key : String
  Means : Value → β → Prop
  get : α → β

variable {α : Type} {settings : List (Setting α)} {s t : Setting α} {fields : Fields α}
  {f : String × (Value → α → Option α)} {entries : List (String × Value)} {v : Value} {a d d' : α}

def Setting.Fits (s : Setting α) (v : Value) : Prop :=
  ∃ b, s.Means v b

/-- The record that a table describes over the defaults `d`: the table has keys of the record only,
what it gives is as it says, and what is absent is as in the defaults. -/
structure Sets (settings : List (Setting α)) (entries : List (String × Value)) (d a : α) :
    Prop where
  known : ∀ e ∈ entries, e.1 ∈ settings.map Setting.key
  given : ∀ s ∈ settings, ∀ v, (s.key, v) ∈ entries → s.Means v (s.get a)
  absent : ∀ s ∈ settings, s.key ∉ entries.map Prod.fst → s.get a = s.get d

/-- The record that a value describes over the defaults `d`. In an array the values stand in the
order of the settings. -/
inductive IsRecord (settings : List (Setting α)) (d : α) : Value → α → Prop where
  | table {entries : List (String × Value)} {a : α} :
    Sets settings entries d a → IsRecord settings d (.table entries) a
  | array {items : List Value} {a : α} :
    Sets settings ((settings.map Setting.key).zip items) d a → IsRecord settings d (.array items) a

theorem isRecord_table :
    IsRecord settings d (.table entries) a ↔ Sets settings entries d a := by
  constructor
  · rintro ⟨h⟩
    exact h
  · exact .table

/-- A field reads a setting: it takes the values that mean something, sets the record to that, and
leaves the other settings. -/
structure Implements (settings : List (Setting α)) (f : String × (Value → α → Option α))
    (s : Setting α) : Prop where
  key : f.1 = s.key
  means : ∀ v, v.Distinct → ∀ d b, s.Means v b ↔ ∃ a, f.2 v d = some a ∧ s.get a = b
  others : ∀ v d a, f.2 v d = some a → ∀ t ∈ settings, t.key ≠ s.key → t.get a = t.get d

structure Describes (settings : List (Setting α)) (fields : Fields α) : Prop where
  reads : List.Forall₂ (Implements settings) fields settings
  keys : (settings.map Setting.key).Nodup
  ext : ∀ a a', (∀ s ∈ settings, s.get a = s.get a') → a = a'

section Field

variable {β γ : Type} {key : String} {Means : Value → β → Prop} {get : α → β}
  {read : Value → Option β} {set : β → α → α}

theorem implements_field {read : Value → Option γ} {set : γ → α → α} (wrap : γ → β)
    (hread : ∀ v, v.Distinct → ∀ b, wrap <$> read v = some b ↔ Means v b)
    (hget : ∀ c d, get (set c d) = wrap c)
    (hothers : ∀ t ∈ settings, t.key ≠ key → ∀ c d, t.get (set c d) = t.get d) :
    Implements settings (field key read set) ⟨key, Means, get⟩ where
  key := rfl
  means := by
    intro v hv d b
    refine (hread v hv b).symm.trans ⟨?_, ?_⟩
    · intro hb
      obtain ⟨c, hc, rfl⟩ := Option.map_eq_some_iff.mp hb
      exact ⟨set c d, congrArg (Option.map (set · d)) hc, hget c d⟩
    · rintro ⟨a, ha, rfl⟩
      obtain ⟨c, hc, rfl⟩ := Option.map_eq_some_iff.mp ha
      exact (congrArg (Option.map wrap) hc).trans (congrArg some (hget c d).symm)
  others := by
    intro v d a ha t ht hne
    obtain ⟨c, -, rfl⟩ := Option.map_eq_some_iff.mp ha
    exact hothers t ht hne c d

theorem Reads.implements (h : Reads read Means) (hget : ∀ b d, get (set b d) = b)
    (hothers : ∀ t ∈ settings, t.key ≠ key → ∀ b d, t.get (set b d) = t.get d) :
    Implements settings (field key read set) ⟨key, Means, get⟩ :=
  implements_field id (fun v _ b => by rw [id_map]; exact h v b) hget hothers

theorem Reads.implements_optional {get : α → Option β} (h : Reads read Means)
    (hget : ∀ b d, get (set b d) = some b)
    (hothers : ∀ t ∈ settings, t.key ≠ key → ∀ b d, t.get (set b d) = t.get d) :
    Implements settings (field key read set) ⟨key, IsSome Means, get⟩ :=
  implements_field some (fun v _ => h.optional v) hget hothers

end Field

theorem Implements.eq_of_means (h : Implements settings f s) (hv : v.Distinct)
    (hf : f.2 v d = some a) {b : s.β} (hb : s.Means v b) : s.get a = b := by
  obtain ⟨a', ha', rfl⟩ := (h.means v hv d b).mp hb
  rw [Option.some.inj (hf.symm.trans ha')]

theorem lookup_of_mem {β : Type} {entries : List (String × β)} (hd : (entries.map Prod.fst).Nodup)
    {e : String × β} (he : e ∈ entries) : entries.lookup e.1 = some e.2 := by
  obtain ⟨before, after, rfl⟩ := List.append_of_mem he
  refine List.lookup_eq_some_iff.mpr ⟨before, after, rfl, fun b hb => ?_⟩
  rw [List.map_append, List.map_cons] at hd
  have hne := (List.nodup_append.mp hd).2.2 b.1 (List.mem_map_of_mem hb) e.1 List.mem_cons_self
  simpa using hne.symm

theorem lookup_of_notMem {β : Type} {entries : List (String × β)} {key : String}
    (h : key ∉ entries.map Prod.fst) : entries.lookup key = none := by
  refine List.lookup_eq_none_iff.mpr fun e he => ?_
  have hne : key ≠ e.1 := fun hk => h (hk ▸ List.mem_map_of_mem he)
  simpa using hne

namespace Describes

theorem map_fst (h : Describes settings fields) :
    fields.map Prod.fst = settings.map Setting.key := by
  rw [← List.forall₂_eq_eq_eq, List.forall₂_map_left_iff, List.forall₂_map_right_iff]
  exact h.reads.imp fun _ _ hf => hf.key

theorem lookup (h : Describes settings fields) (hs : s ∈ settings) :
    ∃ f, fields.lookup s.key = some f.2 ∧ Implements settings f s := by
  obtain ⟨⟨i, hi⟩, rfl⟩ := List.mem_iff_get.mp hs
  have hi' : i < fields.length := h.reads.length_eq ▸ hi
  have hf := h.reads.get hi' hi
  refine ⟨fields.get ⟨i, hi'⟩, ?_, hf⟩
  rw [← hf.key]
  exact lookup_of_mem (h.map_fst ▸ h.keys) (List.get_mem ..)

theorem eq_of_key (h : Describes settings fields) (hs : s ∈ settings) (ht : t ∈ settings)
    (hk : s.key = t.key) : s = t :=
  List.inj_on_of_nodup_map h.keys hs ht hk

end Describes

theorem readRecord_nil (fields : Fields α) : readRecord fields d (.table []) = some d :=
  rfl

theorem readRecord_cons (fields : Fields α) (key : String) (v : Value) :
    readRecord fields d (.table ((key, v) :: entries)) =
      (fields.lookup key).bind fun read => (read v d).bind fun d' =>
        readRecord fields d' (.table entries) := by
  rw [readRecord, List.foldlM_cons]
  exact Option.bind_assoc ..

theorem sets_nil : Sets settings [] d a ↔ ∀ s ∈ settings, s.get a = s.get d := by
  constructor
  · intro h s hs
    exact h.absent s hs List.not_mem_nil
  · intro h
    exact ⟨fun e he => absurd he List.not_mem_nil, fun s _ v hv => absurd hv List.not_mem_nil,
      fun s hs _ => h s hs⟩

/-- The first entry of a table may as well have been read into the defaults. -/
theorem Describes.sets_cons (h : Describes settings fields) (hs : s ∈ settings)
    (hf : Implements settings f s) (hv : v.Distinct) (hread : f.2 v d = some d')
    (hfresh : s.key ∉ entries.map Prod.fst) :
    Sets settings ((s.key, v) :: entries) d a ↔ Sets settings entries d' a := by
  have hmeans : s.Means v (s.get d') := (hf.means v hv d _).mpr ⟨d', hread, rfl⟩
  have hothers := hf.others v d d' hread
  constructor
  · intro hsets
    refine ⟨fun e he => hsets.known e (List.mem_cons_of_mem _ he),
      fun t ht w hw => hsets.given t ht w (List.mem_cons_of_mem _ hw), fun t ht habsent => ?_⟩
    by_cases hk : t.key = s.key
    · obtain rfl := h.eq_of_key ht hs hk
      exact (hf.eq_of_means hv hread (hsets.given t ht v List.mem_cons_self)).symm
    · rw [hothers t ht hk]
      exact hsets.absent t ht (by simp [hk, habsent])
  · intro hsets
    refine ⟨List.forall_mem_cons.mpr ⟨List.mem_map_of_mem hs, hsets.known⟩, fun t ht w hw => ?_,
      fun t ht habsent => ?_⟩
    · obtain hw | hw := List.mem_cons.mp hw
      · obtain rfl := h.eq_of_key ht hs (congrArg Prod.fst hw)
        cases hw
        rwa [hsets.absent t ht hfresh]
      · exact hsets.given t ht w hw
    · obtain ⟨hne, habsent⟩ := not_or.mp (mt List.mem_cons.mpr habsent)
      rw [hsets.absent t ht habsent, hothers t ht hne]

theorem Describes.readRecord_table (h : Describes settings fields)
    (hd : (Value.table entries).Distinct) :
    readRecord fields d (.table entries) = some a ↔ Sets settings entries d a := by
  induction entries generalizing d with
  | nil =>
    rw [readRecord_nil, Option.some_inj, sets_nil]
    exact ⟨fun hda s _ => congrArg s.get hda.symm, fun hall => (h.ext a d hall).symm⟩
  | cons e entries ih =>
    obtain ⟨key, v⟩ := e
    cases hd with
    | table hkeys hvalues =>
    obtain ⟨hfresh, hrest⟩ := List.nodup_cons.mp hkeys
    obtain ⟨hv, hvs⟩ := List.forall_mem_cons.mp hvalues
    rw [readRecord_cons]
    by_cases hknown : key ∈ settings.map Setting.key
    · obtain ⟨s, hs, rfl⟩ := List.mem_map.mp hknown
      obtain ⟨f, hlookup, hf⟩ := h.lookup hs
      rw [hlookup, Option.bind_some]
      cases hread : f.2 v d with
      | none =>
        refine ⟨nofun, fun hsets => ?_⟩
        have hmeans := hsets.given s hs v List.mem_cons_self
        obtain ⟨d', hd', -⟩ := (hf.means v hv d _).mp hmeans
        rw [hread] at hd'
        cases hd'
      | some d' =>
        rw [Option.bind_some, ih (.table hrest hvs)]
        exact (h.sets_cons hs hf hv hread hfresh).symm
    · rw [lookup_of_notMem (by rwa [h.map_fst])]
      exact ⟨nofun, fun hsets => absurd (hsets.known _ List.mem_cons_self) hknown⟩

theorem readRecord_known {row : List ((String × (Value → α → Option α)) × Value)}
    (h : ∀ x ∈ row, fields.lookup x.1.1 = some x.1.2) :
    readRecord fields d (.table (row.map fun x => (x.1.1, x.2))) =
      row.foldlM (fun a x => x.1.2 x.2 a) d := by
  induction row generalizing d with
  | nil => rfl
  | cons x row ih =>
    obtain ⟨hx, hrow⟩ := List.forall_mem_cons.mp h
    rw [List.map_cons, readRecord_cons, hx, Option.bind_some, List.foldlM_cons]
    exact Option.bind_congr fun d' _ => ih hrow

theorem readRecord_array (h : (fields.map Prod.fst).Nodup) (items : List Value) :
    readRecord fields d (.array items) =
      readRecord fields d (.table ((fields.map Prod.fst).zip items)) := by
  rw [List.zip_map_left]
  exact (readRecord_known fun x hx => lookup_of_mem h (List.of_mem_zip hx).1).symm

theorem distinct_zip {keys : List String} {items : List Value} (hk : keys.Nodup)
    (hi : ∀ v ∈ items, v.Distinct) : (Value.table (keys.zip items)).Distinct := by
  refine .table ?_ fun e he => hi e.2 (List.of_mem_zip he).2
  rw [List.zip_eq_zip_take_min, List.map_fst_zip (by simp)]
  exact hk.sublist (List.take_sublist _ keys)

theorem Describes.readRecord_eq_some_iff (h : Describes settings fields) (hv : v.Distinct) :
    readRecord fields d v = some a ↔ IsRecord settings d v a := by
  constructor
  · intro hread
    cases v with
    | table entries => exact .table ((h.readRecord_table hv).mp hread)
    | array items =>
      cases hv with
      | array hitems =>
      rw [readRecord_array (h.map_fst ▸ h.keys), h.map_fst] at hread
      exact .array ((h.readRecord_table (distinct_zip h.keys hitems)).mp hread)
    | _ => cases hread
  · intro hrecord
    cases hrecord with
    | table hsets => exact (h.readRecord_table hv).mpr hsets
    | array hsets =>
      cases hv with
      | array hitems =>
      rw [readRecord_array (h.map_fst ▸ h.keys), h.map_fst]
      exact (h.readRecord_table (distinct_zip h.keys hitems)).mpr hsets

theorem Describes.implements {β : Type} {inner : List (Setting β)} {innerFields : Fields β} {b : β}
    {key : String} {get : α → β} {set : β → α → α} (h : Describes inner innerFields)
    (hget : ∀ b d, get (set b d) = b)
    (hothers : ∀ t ∈ settings, t.key ≠ key → ∀ b d, t.get (set b d) = t.get d) :
    Implements settings (field key (readRecord innerFields b) set)
      ⟨key, IsRecord inner b, get⟩ :=
  implements_field id
    (fun v hv c => by rw [id_map]; exact h.readRecord_eq_some_iff hv) hget hothers

theorem Describes.exists_sets (h : Describes settings fields)
    (hd : (Value.table entries).Distinct)
    (hfits : ∀ e ∈ entries, ∃ s ∈ settings, s.key = e.1 ∧ s.Fits e.2) (d : α) :
    ∃ a, Sets settings entries d a := by
  induction entries generalizing d with
  | nil => exact ⟨d, sets_nil.mpr fun s _ => rfl⟩
  | cons e entries ih =>
    cases hd with
    | table hkeys hvalues =>
    obtain ⟨hfresh, hrest⟩ := List.nodup_cons.mp hkeys
    obtain ⟨hv, hvs⟩ := List.forall_mem_cons.mp hvalues
    obtain ⟨⟨s, hs, hk, b, hb⟩, hfits⟩ := List.forall_mem_cons.mp hfits
    obtain ⟨f, -, hf⟩ := h.lookup hs
    obtain ⟨d', hread, -⟩ := (hf.means e.2 hv d b).mp hb
    obtain ⟨a, ha⟩ := ih (.table hrest hvs) hfits d'
    refine ⟨a, ?_⟩
    have he : e = (s.key, e.2) := Prod.ext hk.symm rfl
    rw [he]
    exact (h.sets_cons hs hf hv hread (hk ▸ hfresh)).mpr ha

end DmaBurst.Config
