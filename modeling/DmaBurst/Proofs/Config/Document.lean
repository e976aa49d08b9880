import DmaBurst.Proofs.Config.Record
import DmaBurst.Proofs.Toml.Document

namespace DmaBurst.Config

open Toml (Value)

def resetSettings : List (Setting ResetConfig) := [
  ⟨"enabled", IsFlag, ResetConfig.enabled⟩,
  ⟨"compatible", IsText, ResetConfig.compatible⟩,
  ⟨"index", IsSize, ResetConfig.index⟩,
  ⟨"address", IsWord, ResetConfig.address⟩,
  ⟨"value", IsWord, ResetConfig.value⟩]

def resetSetting : Setting RxConfig :=
  ⟨"reset", IsRecord resetSettings ({} : Config).rx.reset, RxConfig.reset⟩

def rxSettings : List (Setting RxConfig) := [
  ⟨"iterations", IsWord, RxConfig.iterations⟩,
  ⟨"packets_per_iteration", IsList IsWord, RxConfig.packetsPerIteration⟩,
  ⟨"max_polls", IsSome IsSize, RxConfig.maxPolls⟩,
  ⟨"backoff", IsPolicy, RxConfig.backoff⟩,
  resetSetting,
  ⟨"output_dir", IsText, RxConfig.outputDir⟩,
  ⟨"file_prefix", IsText, RxConfig.filePrefix⟩]

def txSettings : List (Setting TxConfig) := [
  ⟨"queues", IsSize, TxConfig.queues⟩,
  ⟨"packet_len", IsSize, TxConfig.packetLen⟩,
  ⟨"rounds", IsWord, TxConfig.rounds⟩,
  ⟨"max_polls", IsSome IsSize, TxConfig.maxPolls⟩,
  ⟨"backoff", IsPolicy, TxConfig.backoff⟩,
  ⟨"input_dir", IsSome IsText, TxConfig.inputDir⟩,
  ⟨"file_prefix", IsText, TxConfig.filePrefix⟩]

def rxSetting : Setting Config :=
  ⟨"rx", IsRecord rxSettings ({} : Config).rx, Config.rx⟩

def txSetting : Setting Config :=
  ⟨"tx", IsRecord txSettings ({} : Config).tx, Config.tx⟩

def configSettings : List (Setting Config) := [
  ⟨"device", IsText, Config.device⟩,
  ⟨"batch_size", IsSize, Config.batchSize⟩,
  ⟨"schedule", IsSchedule, Config.schedule⟩,
  ⟨"cpu", IsCpu, Config.cpu⟩,
  rxSetting,
  txSetting]

theorem describes_reset : Describes resetSettings resetFields where
  reads := by
    unfold resetFields
    refine .cons (reads_flag.implements (fun _ _ => rfl) ?_) <|
      .cons (reads_text.implements (fun _ _ => rfl) ?_) <|
      .cons (reads_size.implements (fun _ _ => rfl) ?_) <|
      .cons (reads_word.implements (fun _ _ => rfl) ?_) <|
      .cons (reads_word.implements (fun _ _ => rfl) ?_) .nil
    all_goals simp [resetSettings]
  keys := by decide
  ext := by
    rintro ⟨⟩ ⟨⟩ h
    simpa [resetSettings] using h

theorem describes_rx : Describes rxSettings rxFields where
  reads := by
    unfold rxFields
    refine .cons (reads_word.implements (fun _ _ => rfl) ?_) <|
      .cons (reads_word.list.implements (fun _ _ => rfl) ?_) <|
      .cons (reads_size.implements_optional (fun _ _ => rfl) ?_) <|
      .cons (reads_policy.implements (fun _ _ => rfl) ?_) <|
      .cons (describes_reset.implements (fun _ _ => rfl) ?_) <|
      .cons (reads_text.implements (fun _ _ => rfl) ?_) <|
      .cons (reads_text.implements (fun _ _ => rfl) ?_) .nil
    all_goals simp [rxSettings, resetSetting]
  keys := by decide
  ext := by
    rintro ⟨⟩ ⟨⟩ h
    simpa [rxSettings, resetSetting] using h

theorem describes_tx : Describes txSettings txFields where
  reads := by
    unfold txFields
    refine .cons (reads_size.implements (fun _ _ => rfl) ?_) <|
      .cons (reads_size.implements (fun _ _ => rfl) ?_) <|
      .cons (reads_word.implements (fun _ _ => rfl) ?_) <|
      .cons (reads_size.implements_optional (fun _ _ => rfl) ?_) <|
      .cons (reads_policy.implements (fun _ _ => rfl) ?_) <|
      .cons (reads_text.implements_optional (fun _ _ => rfl) ?_) <|
      .cons (reads_text.implements (fun _ _ => rfl) ?_) .nil
    all_goals simp [txSettings]
  keys := by decide
  ext := by
    rintro ⟨⟩ ⟨⟩ h
    simpa [txSettings] using h

theorem describes_config : Describes configSettings configFields where
  reads := by
    unfold configFields
    refine .cons (reads_text.implements (fun _ _ => rfl) ?_) <|
      .cons (reads_size.implements (fun _ _ => rfl) ?_) <|
      .cons (reads_schedule.implements (fun _ _ => rfl) ?_) <|
      .cons (reads_cpu.implements (fun _ _ => rfl) ?_) <|
      .cons (describes_rx.implements (fun _ _ => rfl) ?_) <|
      .cons (describes_tx.implements (fun _ _ => rfl) ?_) .nil
    all_goals simp [configSettings, rxSetting, txSetting]
  keys := by decide
  ext := by
    rintro ⟨⟩ ⟨⟩ h
    simpa [configSettings, rxSetting, txSetting] using h

inductive Table where
  | root
  | rx
  | reset
  | tx

namespace Table

def Record : Table → Type
  | .root => Config
  | .rx => RxConfig
  | .reset => ResetConfig
  | .tx => TxConfig

def settings : (t : Table) → List (Setting t.Record)
  | .root => configSettings
  | .rx => rxSettings
  | .reset => resetSettings
  | .tx => txSettings

def part (c : Config) : (t : Table) → t.Record
  | .root => c
  | .rx => c.rx
  | .reset => c.rx.reset
  | .tx => c.tx

inductive Below : Table → String → Table → Prop where
  | rx : Below .root "rx" .rx
  | reset : Below .rx "reset" .reset
  | tx : Below .root "tx" .tx

/-- What a table may have: one of its keys with a value that fits, or a table that stands there,
whatever that has. -/
inductive Allows : Table → String × Value → Prop where
  | value {t : Table} {s : Setting t.Record} {v : Value} :
    s ∈ t.settings → s.Fits v → Allows t (s.key, v)
  | table {t u : Table} {key : String} {entries : List (String × Value)} :
    Below t key u → Allows t (key, .table entries)

end Table

inductive Within (root : List (String × Value)) : Table → List (String × Value) → Prop where
  | root : Within root .root root
  | nested {t u : Table} {key : String} {above entries : List (String × Value)} :
    Within root t above → t.Below key u → (key, .table entries) ∈ above → Within root u entries

variable {root entries : List (String × Value)} {t u : Table} {c : Config}

theorem Table.exists_describes (t : Table) : ∃ fields, Describes t.settings fields := by
  cases t with
  | root => exact ⟨_, describes_config⟩
  | rx => exact ⟨_, describes_rx⟩
  | reset => exact ⟨_, describes_reset⟩
  | tx => exact ⟨_, describes_tx⟩

theorem Within.distinct (h : Within root t entries) (hd : (Value.table root).Distinct) :
    (Value.table entries).Distinct := by
  induction h with
  | root => exact hd
  | nested _ _ hmem ih =>
    cases ih with
    | table _ hvalues => exact hvalues _ hmem

theorem Table.Below.exists_setting {key : String} (h : Below t key u) :
    ∃ s ∈ t.settings, s.key = key ∧
      (∀ entries r, Sets u.settings entries (u.part {}) r → s.Fits (.table entries)) ∧
      ∀ entries c, s.Means (.table entries) (s.get (t.part c)) →
        Sets u.settings entries (u.part {}) (u.part c) := by
  cases h with
  | rx =>
    have hmem : rxSetting ∈ configSettings := by simp [configSettings]
    exact ⟨rxSetting, hmem, rfl, fun _ r hr => ⟨r, isRecord_table.mpr hr⟩,
      fun _ _ => isRecord_table.mp⟩
  | reset =>
    have hmem : resetSetting ∈ rxSettings := by simp [rxSettings]
    exact ⟨resetSetting, hmem, rfl, fun _ r hr => ⟨r, isRecord_table.mpr hr⟩,
      fun _ _ => isRecord_table.mp⟩
  | tx =>
    have hmem : txSetting ∈ configSettings := by simp [configSettings]
    exact ⟨txSetting, hmem, rfl, fun _ r hr => ⟨r, isRecord_table.mpr hr⟩,
      fun _ _ => isRecord_table.mp⟩

theorem Within.sets (h : Within root t entries) (hsets : Sets configSettings root {} c) :
    Sets t.settings entries (t.part {}) (t.part c) := by
  induction h with
  | root => exact hsets
  | nested _ hbelow hmem ih =>
    obtain ⟨s, hs, rfl, -, hpart⟩ := hbelow.exists_setting
    exact hpart _ c (ih.given s hs _ hmem)

theorem Table.exists_sets (hd : (Value.table entries).Distinct)
    (hallows : ∀ e ∈ entries, t.Allows e)
    (hbelow : ∀ key u inner, Below t key u → (key, .table inner) ∈ entries →
      ∃ r, Sets u.settings inner (u.part {}) r) :
    ∃ r, Sets t.settings entries (t.part {}) r := by
  obtain ⟨fields, hdescribes⟩ := t.exists_describes
  refine hdescribes.exists_sets hd (fun e he => ?_) _
  cases hallows e he with
  | value hs hfits => exact ⟨_, hs, rfl, hfits⟩
  | table hkey =>
    obtain ⟨r, hr⟩ := hbelow _ _ _ hkey he
    obtain ⟨s, hs, hk, hfits, -⟩ := hkey.exists_setting
    exact ⟨s, hs, hk, hfits _ r hr⟩

/-- A document describes a configuration if its tables have only what they may have. -/
theorem exists_sets_root (hd : (Value.table root).Distinct)
    (hallows : ∀ t entries, Within root t entries → ∀ e ∈ entries, t.Allows e) :
    ∃ c, Sets configSettings root {} c := by
  have hreset : ∀ entries, Within root .reset entries →
      ∃ r, Sets resetSettings entries (Table.reset.part {}) r := fun entries h =>
    Table.exists_sets (h.distinct hd) (hallows _ _ h) fun key u inner hb => nomatch hb
  have htx : ∀ entries, Within root .tx entries →
      ∃ r, Sets txSettings entries (Table.tx.part {}) r := fun entries h =>
    Table.exists_sets (h.distinct hd) (hallows _ _ h) fun key u inner hb => nomatch hb
  have hrx : ∀ entries, Within root .rx entries →
      ∃ r, Sets rxSettings entries (Table.rx.part {}) r := by
    intro entries h
    refine Table.exists_sets (h.distinct hd) (hallows _ _ h) fun key u inner hb hmem => ?_
    cases hb with
    | reset => exact hreset inner (h.nested .reset hmem)
  refine Table.exists_sets hd (hallows _ _ .root) fun key u inner hb hmem => ?_
  cases hb with
  | rx => exact hrx inner (Within.root.nested .rx hmem)
  | tx => exact htx inner (Within.root.nested .tx hmem)

/-- A tree is read as the configuration that it describes. -/
theorem ofValue_eq_some_iff (hd : (Value.table root).Distinct) :
    ofValue (.table root) = some c ↔ Sets configSettings root {} c :=
  describes_config.readRecord_table hd

theorem ofText_eq_ok_iff {text : String} (hparse : Toml.parse text = some (.table root)) :
    ofText text = .ok c ↔ ofValue (.table root) = some c := by
  have hbind : Toml.parse text >>= ofValue = ofValue (.table root) := by rw [hparse]; rfl
  rw [ofText, hbind]
  cases ofValue (.table root) <;> simp

theorem ofText_eq_error {text : String} (h : ∀ c, ofText text ≠ .ok c) :
    ofText text = .error .parse := by
  revert h
  rw [ofText]
  split
  · intro h
    exact absurd rfl (h _)
  · intro _
    rfl

/-- Configuration documents override the defaults key by key, and a document with an unknown key in
one of its four tables is refused. -/
theorem documents_override_defaults {text : String}
    (hparse : Toml.parse text = some (.table root)) :
    ((∀ t entries, Within root t entries → ∀ e ∈ entries, t.Allows e) →
      ∃ c, ofText text = .ok c) ∧
    (∀ c, ofText text = .ok c → ∀ t entries, Within root t entries →
      Sets t.settings entries (t.part {}) (t.part c)) ∧
    (∀ c, ofText text = .ok c ↔ Sets configSettings root {} c) ∧
    ∀ t entries, Within root t entries → (∃ e ∈ entries, e.1 ∉ t.settings.map Setting.key) →
      ofText text = .error .parse := by
  have hd : (Value.table root).Distinct := (Toml.distinct_parse hparse).1
  have hread : ∀ c, ofText text = .ok c ↔ Sets configSettings root {} c := fun c =>
    (ofText_eq_ok_iff hparse).trans (ofValue_eq_some_iff hd)
  refine ⟨fun hallows => ?_, fun c hc t entries h => h.sets ((hread c).mp hc), hread,
    fun t entries h hstray => ofText_eq_error fun c hc => ?_⟩
  · obtain ⟨c, hc⟩ := exists_sets_root hd hallows
    exact ⟨c, (hread c).mpr hc⟩
  · obtain ⟨e, he, hkey⟩ := hstray
    exact hkey ((h.sets ((hread c).mp hc)).known e he)

/-- A partly filled `[rx.reset]` keeps the other reset defaults, and `[rx]` its own; a key that
`[rx.reset]` does not have is refused. -/
theorem partial_reset_overrides :
    ofText "batch_size = 32\n[rx.reset]\nenabled = false\n" =
      .ok { batchSize := 32, rx := { reset := { enabled := false } } } ∧
    ofText "[rx.reset]\nenable = false\n" = .error .parse := by
  have hread : Toml.parse "batch_size = 32\n[rx.reset]\nenabled = false\n" = some (.table
      [("batch_size", .integer 32),
        ("rx", .table [("reset", .table [("enabled", .boolean false)])])]) := by
    rfl
  have hstray : Toml.parse "[rx.reset]\nenable = false\n" = some (.table
      [("rx", .table [("reset", .table [("enable", .boolean false)])])]) := by
    rfl
  have hreset : IsRecord resetSettings ({} : Config).rx.reset (.table [("enabled", .boolean false)])
      { enabled := false } := by
    refine .table ⟨by decide, ?_, ?_⟩ <;> simp [resetSettings, IsFlag]
  have hrx : IsRecord rxSettings ({} : Config).rx
      (.table [("reset", .table [("enabled", .boolean false)])])
      { reset := { enabled := false } } := by
    refine .table ⟨by decide, ?_, ?_⟩ <;> simp [rxSettings, resetSetting, hreset]
  have hsets : Sets configSettings [("batch_size", .integer 32),
      ("rx", .table [("reset", .table [("enabled", .boolean false)])])] {}
      { batchSize := 32, rx := { reset := { enabled := false } } } := by
    have hsize : 32 < UInt64.size := by decide
    refine ⟨by decide, ?_, ?_⟩ <;>
      simp [configSettings, rxSetting, txSetting, IsSize, hsize, hrx]
  have hwithin : Within [("rx", .table [("reset", .table [("enable", .boolean false)])])] .reset
      [("enable", .boolean false)] :=
    (Within.root.nested .rx List.mem_cons_self).nested .reset List.mem_cons_self
  exact ⟨((documents_override_defaults hread).2.2.1 _).mpr hsets,
    (documents_override_defaults hstray).2.2.2 .reset _ hwithin ⟨_, List.mem_cons_self, by decide⟩⟩

end DmaBurst.Config
