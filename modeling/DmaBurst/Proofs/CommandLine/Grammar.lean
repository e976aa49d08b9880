import DmaBurst.Proofs.CommandLine.Groups

namespace DmaBurst.CommandLine

def Group.load (t : FileTree) (g : Group) : Except Exit Config :=
  match g.value with
  | none => misused (.missingValue g.flag)
  | some path => (Config.load path t).mapError fun e => .failure (.config e)

def namedConfig (gs : List Group) (t : FileTree) : Except Exit Config :=
  match gs.find? Group.isConfig with
  | none => .ok {}
  | some g => g.load t

/-- No flag before the first configuration flag has a value that spells the configuration flag. -/
def Undisguised (gs : List Group) : Prop :=
  ∀ g ∈ gs.takeWhile (!·.isConfig), ∀ value ∈ g.value, isConfigFlag value = false

instance (gs : List Group) : Decidable (Undisguised gs) :=
  inferInstanceAs (Decidable (∀ g ∈ gs.takeWhile (!·.isConfig), ∀ value ∈ g.value,
    isConfigFlag value = false))

def settle (gs : List Group) (config : Config) : Settings :=
  gs.foldl (fun s g => g.change s) { config }

theorem Undisguised.tail {g : Group} {gs : List Group} (h : Undisguised (g :: gs))
    (hg : g.isConfig = false) : Undisguised gs := by
  intro g' hg'
  refine h g' ?_
  rw [List.takeWhile_cons, hg]
  exact List.mem_cons_of_mem _ hg'

theorem Undisguised.head {g : Group} {gs : List Group} (h : Undisguised (g :: gs))
    (hg : g.isConfig = false) : ∀ value ∈ g.value, isConfigFlag value = false := by
  refine h g ?_
  rw [List.takeWhile_cons, hg]
  exact List.mem_cons_self

theorem namedConfig_cons (g : Group) (gs : List Group) (t : FileTree) :
    namedConfig (g :: gs) t = if isConfigFlag g.flag then g.load t else namedConfig gs t := by
  rw [namedConfig, List.find?_cons, Group.isConfig]
  cases isConfigFlag g.flag <;> rfl

theorem baseConfig_cons (word : String) (rest : List String) (t : FileTree) :
    baseConfig (word :: rest) t =
      if isConfigFlag word then Group.load t ⟨word, rest.head?⟩ else baseConfig rest t := by
  rw [baseConfig, fromConfigFlag, List.dropWhile_cons]
  cases isConfigFlag word with
  | false => rfl
  | true => cases rest <;> rfl

/-- The search for the configuration flag finds the first one that stands as a flag, if none stands
before it as a value. -/
theorem baseConfig_eq {args : List String} (t : FileTree) (h : Undisguised (groups args)) :
    baseConfig args t = namedConfig (groups args) t := by
  fun_induction groups args with
  | case1 => rfl
  | case2 flag =>
    rw [baseConfig_cons, namedConfig_cons]
    rfl
  | case3 flag value rest htakes ih =>
    rw [baseConfig_cons, baseConfig_cons, namedConfig_cons]
    cases hc : isConfigFlag flag with
    | true => rfl
    | false =>
      have hvalue : isConfigFlag value = false := h.head hc value rfl
      simp only [hvalue, Bool.false_eq_true, if_false]
      exact ih (h.tail hc)
  | case4 flag value rest htakes ih =>
    have hc : isConfigFlag flag = false := by
      rw [← Bool.not_eq_true, isConfigFlag_iff]
      intro hn
      exact htakes (congrArg (Option.any FlagName.takesValue) hn)
    rw [baseConfig_cons, namedConfig_cons]
    simp only [hc, Bool.false_eq_true, if_false]
    exact ih (h.tail hc)

/-- What `parse` makes of an accepted line: the flags change the configuration that it starts
from. -/
def Accepted (fits : Group → Prop) (base : Except Exit Config) (command : String) (gs : List Group)
    (mode : Mode) (s : Settings) : Prop :=
  modeOf command = .ok mode ∧ (∀ g ∈ gs, fits g) ∧ ∃ config, base = .ok config ∧
    (settle gs config).emulation.ringCapacity ≠ 0 ∧ capped (settle gs config) = s

theorem bind_eq_ok {ε α β : Type} {x : Except ε α} {f : α → Except ε β} {b : β} :
    x >>= f = .ok b ↔ ∃ a, x = .ok a ∧ f a = .ok b := by
  cases x <;> simp [bind, Except.bind]

theorem applyFlags_eq_ok {args : List String} {config : Config} {s : Settings} :
    applyFlags args { config } = .ok s ↔
      (∀ g ∈ groups args, g.Proper ∨ g.Bare) ∧ settle (groups args) config = s := by
  simp only [applyFlags_eq, applyGroups_eq_ok, Group.exists_effect_iff, settle]

theorem parse_eq_ok {command : String} {args : List String} {t : FileTree} {mode : Mode}
    {s : Settings} :
    parse (command :: args) t = .ok (mode, s) ↔
      Accepted (fun g => g.Proper ∨ g.Bare) (baseConfig args t) command (groups args) mode s := by
  have hend : ∀ (mode' : Mode) (s' : Settings),
      (if s'.emulation.ringCapacity = 0 then misused .emptyRing
        else (.ok (mode', capped s') : Except Exit (Mode × Settings))) = .ok (mode, s) ↔
      mode' = mode ∧ s'.emulation.ringCapacity ≠ 0 ∧ capped s' = s := by
    intro mode' s'
    split
    · next hzero => simp [misused, hzero]
    · next hpos => simp [hpos]
  simp only [parse, bind_eq_ok, applyFlags_eq_ok, pure, Except.pure, hend, Accepted]
  constructor
  · rintro ⟨_, hm, config, hb, _, ⟨hfits, rfl⟩, rfl, hring, hs⟩
    exact ⟨hm, hfits, config, hb, hring, hs⟩
  · rintro ⟨hm, hfits, config, hb, hring, hs⟩
    exact ⟨mode, hm, config, hb, _, ⟨hfits, rfl⟩, rfl, hring, hs⟩

/-- Where the configuration flag stands for itself: no flag before the first one has a value that
spells it, and no other follows it without a value. -/
structure Overt (gs : List Group) : Prop where
  undisguised : Undisguised gs
  bare_first : ∀ g ∈ gs, g.Bare → gs.find? Group.isConfig = some g

instance (g : Group) : Decidable g.Bare :=
  inferInstanceAs (Decidable (_ ∧ _))

instance (gs : List Group) : Decidable (Overt gs) :=
  decidable_of_iff (Undisguised gs ∧ ∀ g ∈ gs, g.Bare → gs.find? Group.isConfig = some g)
    ⟨fun h => ⟨h.1, h.2⟩, fun h => ⟨h.undisguised, h.bare_first⟩⟩

theorem Overt.namedConfig_of_bare {gs : List Group} (h : Overt gs) {g : Group} (hm : g ∈ gs)
    (hbare : g.Bare) (t : FileTree) : namedConfig gs t = misused (.missingValue g.flag) := by
  rw [namedConfig, h.bare_first g hm hbare]
  dsimp only
  rw [Group.load, hbare.2]

theorem Overt.proper {gs : List Group} (h : Overt gs) {t : FileTree} {config : Config}
    (hc : namedConfig gs t = .ok config) (hfits : ∀ g ∈ gs, g.Proper ∨ g.Bare) :
    ∀ g ∈ gs, g.Proper := by
  intro g hm
  refine (hfits g hm).resolve_right fun hbare => ?_
  rw [h.namedConfig_of_bare hm hbare] at hc
  cases hc

/-- A line is accepted if every group is proper or a bare configuration flag. The configuration
comes from the first argument that spells that flag, even where it stands as the value of another.
-/
theorem parse_reads_groups (command : String) (args : List String) (t : FileTree) :
    (∀ mode s, parse (command :: args) t = .ok (mode, s) ↔
      Accepted (fun g => g.Proper ∨ g.Bare) (baseConfig args t) command (groups args) mode s) ∧
    (Overt (groups args) →
      (∀ mode s, parse (command :: args) t = .ok (mode, s) ↔
        Accepted Group.Proper (namedConfig (groups args) t) command (groups args) mode s) ∧
      ∀ mode, modeOf command = .ok mode → ∀ g ∈ groups args, g.Bare →
        parse (command :: args) t = misused (.missingValue g.flag)) := by
  refine ⟨fun mode s => parse_eq_ok, fun h => ⟨fun mode s => ?_, fun mode hm g hg hbare => ?_⟩⟩
  · rw [parse_eq_ok, baseConfig_eq t h.undisguised]
    constructor
    · rintro ⟨hm, hfits, config, hc, hrest⟩
      exact ⟨hm, h.proper hc hfits, config, hc, hrest⟩
    · rintro ⟨hm, hproper, hrest⟩
      exact ⟨hm, fun g hg => .inl (hproper g hg), hrest⟩
  · have hbase := (baseConfig_eq t h.undisguised).trans (h.namedConfig_of_bare hg hbare t)
    rw [parse, hm, hbase]
    rfl

def blankFiles (names : List String) : FileTree where
  files := names.map fun name => ([name], [])

/-- A value may spell the configuration flag behind the first one, and a bare one is refused. -/
theorem overt_read_groups :
    Overt (groups ["-b", "7", "-c", "a", "-d", "--config"]) ∧
      parse ["rx", "-b", "7", "-c", "a", "-d", "--config"] (blankFiles ["a"]) =
        .ok (.receive, { config := { batchSize := 7, device := "--config" } }) ∧
      Accepted Group.Proper
        (namedConfig (groups ["-b", "7", "-c", "a", "-d", "--config"]) (blankFiles ["a"])) "rx"
        (groups ["-b", "7", "-c", "a", "-d", "--config"]) .receive
        { config := { batchSize := 7, device := "--config" } } ∧
      Overt (groups ["-q", "3", "-c"]) ∧
      parse ["tx", "-q", "3", "-c"] {} = misused (.missingValue "-c") := by
  have hovert : Overt (groups ["-b", "7", "-c", "a", "-d", "--config"]) := by
    decide
  have hbare : Overt (groups ["-q", "3", "-c"]) := by
    decide
  have hparse : parse ["rx", "-b", "7", "-c", "a", "-d", "--config"] (blankFiles ["a"]) =
      .ok (.receive, { config := { batchSize := 7, device := "--config" } }) := by
    cbv
  refine ⟨hovert, hparse, ?_, hbare, ?_⟩
  · exact (((parse_reads_groups _ _ _).2 hovert).1 _ _).mp hparse
  · exact ((parse_reads_groups _ _ _).2 hbare).2 .transmit rfl ⟨"-c", none⟩ (by decide)
      ⟨by decide, rfl⟩

/-- An accepted line may have a bare configuration flag, and its configuration need not be that of
the first configuration flag: here it is that of `-q`, which follows the device's name `-c`. -/
theorem disguised_is_loaded :
    (¬ ∀ (command : String) (args : List String) (t : FileTree) (mode : Mode) (s : Settings),
      (∀ g ∈ groups args, g.name? ≠ some .help) → parse (command :: args) t = .ok (mode, s) →
        ∀ g ∈ groups args, g.Proper) ∧
    ¬ ∀ (command : String) (args : List String) (t : FileTree) (mode : Mode) (s : Settings),
      (∀ g ∈ groups args, g.name? ≠ some .help) → parse (command :: args) t = .ok (mode, s) →
        ∃ config, namedConfig (groups args) t = .ok config ∧
          capped (settle (groups args) config) = s := by
  constructor
  · intro h
    have hparse : parse ["receive", "-c", "a", "-c"] (blankFiles ["a"]) = .ok (.receive, {}) := by
      cbv
    obtain ⟨n, hn, -, hvalue⟩ := h _ _ _ _ _ (by decide) hparse ⟨"-c", none⟩ (by decide)
    obtain rfl : FlagName.config = n := Option.some.inj hn
    obtain ⟨_, hnone, -⟩ := hvalue rfl
    cases hnone
  · intro h
    have hparse : parse ["receive", "-d", "-c", "-q", "3", "-c", "a"] (blankFiles ["-q"]) =
        .ok (.receive, { config := { device := "-c", tx := { queues := 3 } } }) := by
      cbv
    obtain ⟨config, hc, -⟩ := h _ _ _ _ _ (by decide) hparse
    have hmissing : namedConfig (groups ["-d", "-c", "-q", "3", "-c", "a"]) (blankFiles ["-q"]) =
        .error (.failure (.config (.read "a" .notFound))) := by
      cbv
    rw [hmissing] at hc
    cases hc

end DmaBurst.CommandLine
