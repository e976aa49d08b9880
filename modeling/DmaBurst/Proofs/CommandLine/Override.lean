import DmaBurst.Proofs.CommandLine.Grammar

namespace DmaBurst.CommandLine

inductive Field : Type → Type where
  | device : Field String
  | batchSize : Field Nat
  | schedule : Field Schedule
  | cpu : Field CpuPolicy
  | iterations : Field UInt32
  | packetsPerIteration : Field (List UInt32)
  | rxMaxPolls : Field (Option Nat)
  | rxBackoff : Field BackoffPolicy
  | resetEnabled : Field Bool
  | resetCompatible : Field String
  | resetIndex : Field Nat
  | resetAddress : Field UInt32
  | resetValue : Field UInt32
  | outputDir : Field String
  | rxFilePrefix : Field String
  | queues : Field Nat
  | packetLen : Field Nat
  | rounds : Field UInt32
  | txMaxPolls : Field (Option Nat)
  | txBackoff : Field BackoffPolicy
  | inputDir : Field (Option String)
  | txFilePrefix : Field String
  | ringCapacity : Field Nat
  | rxPacketLen : Field Nat
  | withhold : Field Nat

namespace Field

def get {α : Type} : Field α → Settings → α
  | device, s => s.config.device
  | batchSize, s => s.config.batchSize
  | schedule, s => s.config.schedule
  | cpu, s => s.config.cpu
  | iterations, s => s.config.rx.iterations
  | packetsPerIteration, s => s.config.rx.packetsPerIteration
  | rxMaxPolls, s => s.config.rx.maxPolls
  | rxBackoff, s => s.config.rx.backoff
  | resetEnabled, s => s.config.rx.reset.enabled
  | resetCompatible, s => s.config.rx.reset.compatible
  | resetIndex, s => s.config.rx.reset.index
  | resetAddress, s => s.config.rx.reset.address
  | resetValue, s => s.config.rx.reset.value
  | outputDir, s => s.config.rx.outputDir
  | rxFilePrefix, s => s.config.rx.filePrefix
  | queues, s => s.config.tx.queues
  | packetLen, s => s.config.tx.packetLen
  | rounds, s => s.config.tx.rounds
  | txMaxPolls, s => s.config.tx.maxPolls
  | txBackoff, s => s.config.tx.backoff
  | inputDir, s => s.config.tx.inputDir
  | txFilePrefix, s => s.config.tx.filePrefix
  | ringCapacity, s => s.emulation.ringCapacity
  | rxPacketLen, s => s.emulation.rxPacketLen
  | withhold, s => s.emulation.withhold

/-- The flag that sets a field. Some fields are set by the configuration file alone. -/
def flag? {α : Type} : Field α → Option FlagName
  | device => some .device
  | batchSize => some .batch
  | schedule => some .schedule
  | cpu => some .cpu
  | iterations => some .iterations
  | rxMaxPolls | txMaxPolls => some .maxPolls
  | rxBackoff | txBackoff => some .backoff
  | resetEnabled => some .noReset
  | outputDir => some .outDir
  | rxFilePrefix | txFilePrefix => some .filePrefix
  | queues => some .queues
  | packetLen => some .packetLen
  | rounds => some .rounds
  | inputDir => some .inDir
  | ringCapacity => some .ring
  | rxPacketLen => some .rxPacketLen
  | withhold => some .withhold
  | packetsPerIteration | resetCompatible | resetIndex | resetAddress | resetValue => none

def size? (raw : String) : Option Nat :=
  Text.unsigned? UInt64.size raw.toList

def word? (raw : String) : Option UInt32 :=
  (Text.unsigned? UInt32.size raw.toList).map .ofNat

def ofValue? {α : Type} : Field α → Option String → Option α
  | device, raw | outputDir, raw | rxFilePrefix, raw | txFilePrefix, raw => raw
  | inputDir, raw => raw.map some
  | batchSize, raw | queues, raw | packetLen, raw | ringCapacity, raw | rxPacketLen, raw
  | withhold, raw => raw.bind size?
  | rxMaxPolls, raw | txMaxPolls, raw => (raw.bind size?).map some
  | iterations, raw | rounds, raw => raw.bind word?
  | schedule, raw => raw.bind fun raw => (Schedule.parse raw).toOption
  | cpu, raw => raw.bind fun raw => (readCpu raw).toOption
  | rxBackoff, raw | txBackoff, raw => raw.bind BackoffPolicy.parse?
  | resetEnabled, _ => some false
  | packetsPerIteration, _ | resetCompatible, _ | resetIndex, _ | resetAddress, _
  | resetValue, _ => none

def written? {α : Type} (f : Field α) (g : Group) : Option α :=
  if f.flag?.isSome ∧ g.name? = f.flag? then f.ofValue? g.value else none

/-- What the last group that writes a field sets it to, or else its value in `s`. -/
def last {α : Type} (f : Field α) (gs : List Group) (s : Settings) : α :=
  (gs.filterMap f.written?).getLastD (f.get s)

/-- A field after all groups: a receive run that withholds packets has a poll cap. -/
def final {α : Type} : Field α → List Group → Settings → α
  | rxMaxPolls, gs, s =>
    if 0 < withhold.last gs s ∧ rxMaxPolls.last gs s = none then some withholdMaxPolls
    else rxMaxPolls.last gs s
  | f, gs, s => f.last gs s

theorem settings_ext {s s' : Settings} (h : ∀ {α : Type} (f : Field α), f.get s = f.get s') :
    s = s' := by
  obtain ⟨⟨_, _, _, _, ⟨_, _, _, _, ⟨_, _, _, _, _⟩, _, _⟩, ⟨_, _, _, _, _, _, _⟩⟩, ⟨_, _, _⟩⟩ := s
  obtain ⟨⟨_, _, _, _, ⟨_, _, _, _, ⟨_, _, _, _, _⟩, _, _⟩, ⟨_, _, _, _, _, _, _⟩⟩, ⟨_, _, _⟩⟩ := s'
  cases h device; cases h batchSize; cases h schedule; cases h cpu
  cases h iterations; cases h packetsPerIteration; cases h rxMaxPolls; cases h rxBackoff
  cases h resetEnabled; cases h resetCompatible; cases h resetIndex; cases h resetAddress
  cases h resetValue; cases h outputDir; cases h rxFilePrefix
  cases h queues; cases h packetLen; cases h rounds; cases h txMaxPolls; cases h txBackoff
  cases h inputDir; cases h txFilePrefix
  cases h ringCapacity; cases h rxPacketLen; cases h withhold
  rfl

end Field

def changeBy {β : Type} (x : Option β) (set : β → Change) : Change :=
  (x.map set).getD id

def FlagName.change (n : FlagName) (value : Option String) : Change :=
  let size := value.bind Field.size?
  let word := value.bind Field.word?
  match n with
  | help | config => id
  | noReset => disableReset
  | device => changeBy value fun device => onConfig fun c => { c with device }
  | batch => changeBy size fun batchSize => onConfig fun c => { c with batchSize }
  | schedule => changeBy (value.bind fun raw => (Schedule.parse raw).toOption)
      fun schedule => onConfig fun c => { c with schedule }
  | cpu => changeBy (value.bind fun raw => (readCpu raw).toOption)
      fun cpu => onConfig fun c => { c with cpu }
  | maxPolls => changeBy size setMaxPolls
  | backoff => changeBy (value.bind BackoffPolicy.parse?) setBackoff
  | iterations => changeBy word fun iterations => onRx fun rx => { rx with iterations }
  | outDir => changeBy value fun outputDir => onRx fun rx => { rx with outputDir }
  | filePrefix => changeBy value setFilePrefix
  | queues => changeBy size fun queues => onTx fun tx => { tx with queues }
  | packetLen => changeBy size fun packetLen => onTx fun tx => { tx with packetLen }
  | rounds => changeBy word fun rounds => onTx fun tx => { tx with rounds }
  | inDir => changeBy value fun dir => onTx fun tx => { tx with inputDir := some dir }
  | ring => changeBy size fun ringCapacity => onEmulation fun e => { e with ringCapacity }
  | rxPacketLen => changeBy size fun rxPacketLen => onEmulation fun e => { e with rxPacketLen }
  | withhold => changeBy size fun withhold => onEmulation fun e => { e with withhold }

theorem change_of_valued {flag : String} {read : String → Except Failure Change} {β : Type}
    {conv : String → Option β} {set : β → Change} (h : flagOf flag = .valued read)
    (hread : ∀ raw, (read raw).toOption = (conv raw).map set) (value : Option String) :
    Group.change ⟨flag, value⟩ = changeBy (value.bind conv) set := by
  cases value with
  | none => simp [Group.change, Group.effect, h, misused, Except.toOption, changeBy]
  | some raw =>
    simp only [Group.change, Group.effect, h, changeBy, Option.bind_some, ← hread]
    cases read raw <;> rfl

theorem change_of_text {flag : String} {set : String → Change} (h : flagOf flag = text set)
    (value : Option String) : Group.change ⟨flag, value⟩ = changeBy value set := by
  have hread : ∀ raw, (Except.ok (set raw) : Except Failure Change).toOption =
      (some raw).map set := fun raw => rfl
  rw [change_of_valued h hread, Option.bind_fun_some]

theorem toOption_number (flag raw : String) (bound : Nat) (set : Nat → Change) :
    (match Text.unsigned? bound raw.toList with
      | some n => (.ok (set n) : Except Failure Change)
      | none => .error (.misuse (.invalidValue flag raw))).toOption =
      (Text.unsigned? bound raw.toList).map set := by
  cases Text.unsigned? bound raw.toList <;> rfl

theorem change_of_size {flag name : String} {set : Nat → Change} (h : flagOf flag = size name set)
    (value : Option String) :
    Group.change ⟨flag, value⟩ = changeBy (value.bind Field.size?) set :=
  change_of_valued h (fun raw => toOption_number name raw _ set) value

theorem change_of_word {flag name : String} {set : UInt32 → Change}
    (h : flagOf flag = word name set) (value : Option String) :
    Group.change ⟨flag, value⟩ = changeBy (value.bind Field.word?) set := by
  refine change_of_valued h (fun raw => (toOption_number name raw _ _).trans ?_) value
  rw [Field.word?, Option.map_map]
  rfl

theorem change_of_unknown {flag : String} (h : FlagName.ofWord? flag = none)
    (value : Option String) : Group.change ⟨flag, value⟩ = id := by
  rw [Group.change, Group.effect, flagOf_eq_unknown h]
  cases value <;> rfl

theorem change_eq {flag : String} {n : FlagName} (h : FlagName.ofWord? flag = some n)
    (value : Option String) : Group.change ⟨flag, value⟩ = n.change value := by
  have hw := FlagName.ofWord?_eq_some.mp h
  clear h
  cases n <;> simp only [FlagName.spellings, List.mem_cons, List.not_mem_nil, or_false] at hw
  case help | config => rcases hw with rfl | rfl <;> cases value <;> rfl
  case noReset => cases hw; cases value <;> rfl
  case device | outDir => rcases hw with rfl | rfl <;> exact change_of_text rfl value
  case filePrefix | inDir => cases hw; exact change_of_text rfl value
  case batch | queues | packetLen => rcases hw with rfl | rfl <;> exact change_of_size rfl value
  case maxPolls | ring | rxPacketLen | withhold => cases hw; exact change_of_size rfl value
  case iterations | rounds => rcases hw with rfl | rfl <;> exact change_of_word rfl value
  case schedule =>
    cases hw
    refine change_of_valued rfl (fun raw => ?_) value
    cases Schedule.parse raw <;> rfl
  case cpu =>
    cases hw
    refine change_of_valued rfl (fun raw => ?_) value
    cases readCpu raw <;> rfl
  case backoff =>
    cases hw
    refine change_of_valued rfl (fun raw => ?_) value
    rw [readBackoff]
    cases BackoffPolicy.parse? raw <;> rfl

namespace Field

theorem get_flagChange {α : Type} (f : Field α) (n : FlagName) (value : Option String)
    (s : Settings) :
    f.get (n.change value s) =
      (if f.flag?.isSome ∧ some n = f.flag? then f.ofValue? value else none).getD (f.get s) := by
  cases n
  case help | config | noReset => cases f <;> rfl
  case device | outDir | filePrefix | inDir => cases value <;> cases f <;> rfl
  case batch | maxPolls | queues | packetLen | ring | rxPacketLen | withhold =>
    cases h : value.bind size? <;> cases f <;>
      simp [FlagName.change, ofValue?, h, flag?, changeBy] <;> rfl
  case iterations | rounds =>
    cases h : value.bind word? <;> cases f <;>
      simp [FlagName.change, ofValue?, h, flag?, changeBy] <;> rfl
  case schedule =>
    cases h : value.bind fun raw => (Schedule.parse raw).toOption <;> cases f <;>
      simp [FlagName.change, ofValue?, h, flag?, changeBy] <;> rfl
  case cpu =>
    cases h : value.bind fun raw => (readCpu raw).toOption <;> cases f <;>
      simp [FlagName.change, ofValue?, h, flag?, changeBy] <;> rfl
  case backoff =>
    cases h : value.bind BackoffPolicy.parse? <;> cases f <;>
      simp [FlagName.change, ofValue?, h, flag?, changeBy] <;> rfl

theorem get_change {α : Type} (f : Field α) (g : Group) (s : Settings) :
    f.get (g.change s) = (f.written? g).getD (f.get s) := by
  obtain ⟨flag, value⟩ := g
  cases hn : FlagName.ofWord? flag with
  | none =>
    have hnot : ¬ (f.flag?.isSome ∧ Group.name? ⟨flag, value⟩ = f.flag?) := by
      rw [Group.name?, hn]
      rintro ⟨hsome, hname⟩
      rw [← hname] at hsome
      cases hsome
    rw [change_of_unknown hn, written?, if_neg hnot]
    rfl
  | some n =>
    rw [change_eq hn, get_flagChange, written?, Group.name?, hn]

theorem get_settle {α : Type} (f : Field α) (gs : List Group) (config : Config) :
    f.get (settle gs config) = f.last gs { config } := by
  rw [settle]
  generalize ({ config } : Settings) = s
  induction gs generalizing s with
  | nil => rfl
  | cons g gs ih =>
    rw [List.foldl_cons, ih, last, last, get_change, List.filterMap_cons]
    cases f.written? g with
    | none => rfl
    | some a => rw [List.getLastD_cons]; rfl

theorem last_eq_filter {α : Type} (f : Field α) (n : FlagName) (h : f.flag? = some n)
    (gs : List Group) (s : Settings) : f.last (gs.filter (·.name? = some n)) s = f.last gs s := by
  rw [last, last, List.filterMap_filter]
  congr 2
  funext g
  by_cases hg : g.name? = some n
  · rw [if_pos (decide_eq_true hg)]
  · rw [if_neg (by simpa using hg), written?, if_neg (by simp [h, hg])]

theorem last_of_unset {α : Type} (f : Field α) (h : f.flag? = none) (gs : List Group)
    (s : Settings) : f.last gs s = f.get s := by
  have hnone : gs.filterMap f.written? = [] := by
    rw [List.filterMap_eq_nil_iff]
    intro g _
    rw [written?, if_neg (by simp [h])]
  rw [last, hnone]
  rfl

theorem get_capped {α : Type} (f : Field α) (gs : List Group) (config : Config) :
    f.get (capped (settle gs config)) = f.final gs { config } := by
  have hlast := f.get_settle gs config
  have hwithhold := withhold.get_settle gs config
  cases f with
  | rxMaxPolls =>
    rw [final, ← hlast, ← hwithhold, capped]
    exact apply_ite rxMaxPolls.get _ _ _
  | _ =>
    refine Eq.trans ?_ hlast
    rw [capped]
    split <;> rfl

end Field

/-- Reorders groups, those of one flag among themselves not. -/
structure Shuffled (gs gs' : List Group) : Prop where
  perm : gs.Perm gs'
  same_flag : ∀ n : FlagName, gs.filter (·.name? = some n) = gs'.filter (·.name? = some n)

instance (g : Group) : Decidable g.Complete :=
  match h : g.name? with
  | none => isFalse fun ⟨_, hn, _⟩ => by simp [h] at hn
  | some n => decidable_of_iff (n ≠ .help ∧ g.value.isSome = n.takesValue)
      (by simp [Group.Complete, h])

/-- Complete groups, at most one with the configuration flag, and no value that spells it. -/
structure Regular (gs : List Group) : Prop where
  complete : ∀ g ∈ gs, g.Complete
  config_once : gs.countP Group.isConfig ≤ 1
  plain : ∀ g ∈ gs, ∀ value ∈ g.value, isConfigFlag value = false

variable {gs gs' : List Group}

theorem Shuffled.settle_eq (h : Shuffled gs gs') (config : Config) :
    settle gs config = settle gs' config := by
  refine Field.settings_ext fun {α} f => ?_
  rw [f.get_settle, f.get_settle]
  cases hf : f.flag? with
  | none => rw [f.last_of_unset hf, f.last_of_unset hf]
  | some n => rw [← f.last_eq_filter n hf, h.same_flag, f.last_eq_filter n hf]

theorem isConfig_eq (g : Group) : g.isConfig = decide (g.name? = some .config) := by
  rw [Bool.eq_iff_iff, decide_eq_true_iff]
  exact isConfigFlag_iff

theorem Shuffled.namedConfig_eq (h : Shuffled gs gs') (t : FileTree) :
    namedConfig gs t = namedConfig gs' t := by
  have hconfig : Group.isConfig = fun g => decide (g.name? = some .config) := funext isConfig_eq
  rw [namedConfig, namedConfig, ← List.head?_filter, ← List.head?_filter, hconfig,
    h.same_flag .config]

namespace Regular

theorem perm (h : Regular gs) (hp : gs.Perm gs') : Regular gs' where
  complete g hg := h.complete g (hp.mem_iff.mpr hg)
  config_once := hp.countP_eq Group.isConfig ▸ h.config_once
  plain g hg := h.plain g (hp.mem_iff.mpr hg)

theorem groups_eq (h : Regular gs) : groups (line gs) = gs :=
  groups_line h.complete

theorem baseConfig_line (h : Regular gs) (t : FileTree) :
    baseConfig (line gs) t = namedConfig gs t := by
  have hundisguised : Undisguised (groups (line gs)) := by
    rw [h.groups_eq]
    exact fun g hg => h.plain g ((List.takeWhile_prefix _).subset hg)
  rw [baseConfig_eq t hundisguised, h.groups_eq]

theorem parse_line (h : Regular gs) {command : String} {t : FileTree} {mode : Mode}
    {s : Settings} :
    parse (command :: line gs) t = .ok (mode, s) ↔
      Accepted (fun g => g.Proper ∨ g.Bare) (namedConfig gs t) command gs mode s := by
  rw [parse_eq_ok, h.baseConfig_line, h.groups_eq]

/-- Reordering the groups of different flags keeps what an accepted line means. -/
theorem parse_shuffled (h : Regular gs) (hs : Shuffled gs gs') {command : String} {t : FileTree}
    {mode : Mode} {s : Settings} (hp : parse (command :: line gs) t = .ok (mode, s)) :
    parse (command :: line gs') t = .ok (mode, s) := by
  obtain ⟨hm, hfits, config, hc, hring, hcapped⟩ := h.parse_line.mp hp
  refine (h.perm hs.perm).parse_line.mpr ⟨hm, fun g hg => hfits g (hs.perm.mem_iff.mpr hg), config,
    (hs.namedConfig_eq t).symm.trans hc, ?_⟩
  rw [← hs.settle_eq]
  exact ⟨hring, hcapped⟩

theorem get_parse (h : Regular gs) {command : String} {t : FileTree} {mode : Mode} {s : Settings}
    (hp : parse (command :: line gs) t = .ok (mode, s)) :
    ∃ config, namedConfig gs t = .ok config ∧
      ∀ {α : Type} (f : Field α), f.get s = f.final gs { config } := by
  obtain ⟨_, _, config, hc, _, rfl⟩ := h.parse_line.mp hp
  exact ⟨config, hc, fun f => f.get_capped gs config⟩

end Regular

theorem effect_of_isConfig {g : Group} (h : g.isConfig = true) : g.effect = .ok id := by
  obtain ⟨flag, value⟩ := g
  obtain rfl | rfl : flag = "--config" ∨ flag = "-c" := by
    simpa [Group.isConfig, isConfigFlag] using h
  all_goals cases value <;> rfl

theorem applyGroups_append (gs gs' : List Group) (s : Settings) :
    applyGroups (gs ++ gs') s = (applyGroups gs s).bind (applyGroups gs') := by
  induction gs generalizing s with
  | nil => rfl
  | cons g gs ih =>
    rw [List.cons_append, applyGroups, applyGroups]
    cases g.effect with
    | error e => rfl
    | ok change => exact ih (change s)

theorem Regular.parse_config_first {c : Group} {pre post : List Group}
    (h : Regular (pre ++ c :: post)) (hc : c.isConfig = true) (command : String) (t : FileTree) :
    parse (command :: line (pre ++ c :: post)) t =
      parse (command :: line (c :: (pre ++ post))) t := by
  have hfront : Regular (c :: (pre ++ post)) := h.perm List.perm_middle
  have hpre : pre.find? Group.isConfig = none := by
    have hcount := h.config_once
    rw [List.countP_append, List.countP_cons_of_pos hc] at hcount
    have hzero : pre.countP Group.isConfig = 0 := by omega
    simpa using hzero
  have hbase : baseConfig (line (pre ++ c :: post)) t =
      baseConfig (line (c :: (pre ++ post))) t := by
    rw [h.baseConfig_line, hfront.baseConfig_line, namedConfig, namedConfig, List.find?_append,
      hpre, List.find?_cons_of_pos hc, List.find?_cons_of_pos hc]
    rfl
  have hflags : ∀ s, applyFlags (line (pre ++ c :: post)) s =
      applyFlags (line (c :: (pre ++ post))) s := by
    intro s
    rw [applyFlags_eq, applyFlags_eq, h.groups_eq, hfront.groups_eq, applyGroups,
      effect_of_isConfig hc]
    change _ = applyGroups (pre ++ post) s
    rw [applyGroups_append, applyGroups_append]
    congr 1
    funext s'
    rw [applyGroups, effect_of_isConfig hc]
    rfl
  simp only [parse, hbase, hflags]

theorem isSome_maxPolls_capped (s : Settings) (h : 0 < (capped s).emulation.withhold) :
    (capped s).config.rx.maxPolls.isSome = true := by
  rw [capped] at h ⊢
  split
  · rfl
  · next hnot =>
    rw [if_neg hnot] at h
    exact Option.isSome_iff_ne_none.mpr fun hnone => hnot ⟨h, hnone⟩

/-- Each field is what the last group that writes it says, or else the configuration, wherever the
file is named and in whatever order groups of different flags stand. -/
theorem flags_override_file (command : String) (t : FileTree) :
    (∀ c pre post pre' post', c.isConfig = true → pre ++ post = pre' ++ post' →
      Regular (pre ++ c :: post) →
      parse (command :: line (pre ++ c :: post)) t =
        parse (command :: line (pre' ++ c :: post')) t) ∧
    (∀ gs gs' mode s, Regular gs → Shuffled gs gs' →
      parse (command :: line gs) t = .ok (mode, s) →
      parse (command :: line gs') t = .ok (mode, s)) ∧
    (∀ gs mode s, Regular gs → parse (command :: line gs) t = .ok (mode, s) →
      ∃ config, namedConfig gs t = .ok config ∧
        ∀ {α : Type} (f : Field α), f.get s = f.final gs { config }) ∧
    ∀ args mode s, parse (command :: args) t = .ok (mode, s) → 0 < s.emulation.withhold →
      s.config.rx.maxPolls.isSome = true := by
  refine ⟨fun c pre post pre' post' hc hsame h => ?_, fun gs gs' mode s h hs => h.parse_shuffled hs,
    fun gs mode s h => h.get_parse, fun args mode s hp hw => ?_⟩
  · have h' : Regular (pre' ++ c :: post') :=
      h.perm ((List.perm_middle.trans (hsame ▸ .refl _)).trans List.perm_middle.symm)
    rw [h.parse_config_first hc, h'.parse_config_first hc, hsame]
  · obtain ⟨_, _, config, _, _, rfl⟩ := parse_eq_ok.mp hp
    exact isSome_maxPolls_capped _ hw

def withholding : List Group :=
  [⟨"-b", some "7"⟩, ⟨"--withhold", some "3"⟩, ⟨"-c", some "a"⟩, ⟨"--batch", some "9"⟩]

/-- The last size of a batch counts, the file may be named first, and the run has a poll cap. -/
theorem withholding_overrides_file :
    Regular withholding ∧
      parse ("rx" :: line withholding) (blankFiles ["a"]) =
        parse ["rx", "-c", "a", "-b", "7", "--withhold", "3", "--batch", "9"] (blankFiles ["a"]) ∧
      parse ["rx", "--withhold", "3", "-b", "7", "--batch", "9", "-c", "a"] (blankFiles ["a"]) =
        .ok (.receive, {
          config := { batchSize := 9, rx := { maxPolls := some 1000000 } }
          emulation := { withhold := 3 } }) ∧
      (∃ config, namedConfig withholding (blankFiles ["a"]) = .ok config ∧
        9 = Field.batchSize.final withholding { config } ∧
        some 1000000 = Field.rxMaxPolls.final withholding { config }) ∧
      (some 1000000 : Option Nat).isSome = true := by
  have hregular : Regular withholding := ⟨by decide, by decide, by decide⟩
  have hparse : parse ("rx" :: line withholding) (blankFiles ["a"]) =
      .ok (.receive, {
        config := { batchSize := 9, rx := { maxPolls := some 1000000 } }
        emulation := { withhold := 3 } }) := by
    cbv
  obtain ⟨hmove, hshuffle, hfields, hcap⟩ := flags_override_file "rx" (blankFiles ["a"])
  refine ⟨hregular, ?_, ?_, ?_, hcap _ _ _ hparse (by decide)⟩
  · exact hmove ⟨"-c", some "a"⟩ (withholding.take 2) [⟨"--batch", some "9"⟩] []
      [⟨"-b", some "7"⟩, ⟨"--withhold", some "3"⟩, ⟨"--batch", some "9"⟩] rfl rfl hregular
  · have hshuffled : Shuffled withholding
        [⟨"--withhold", some "3"⟩, ⟨"-b", some "7"⟩, ⟨"--batch", some "9"⟩, ⟨"-c", some "a"⟩] :=
      ⟨by decide, fun n => by cases n <;> decide⟩
    exact hshuffle withholding _ _ _ hregular hshuffled hparse
  · obtain ⟨config, hc, hget⟩ := hfields _ _ _ hregular hparse
    exact ⟨config, hc, hget .batchSize, hget .rxMaxPolls⟩

end DmaBurst.CommandLine
