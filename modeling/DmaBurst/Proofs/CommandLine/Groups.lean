import DmaBurst.CommandLine.Options
import Mathlib

namespace DmaBurst.CommandLine

inductive FlagName where
  | help
  | config
  | device
  | batch
  | schedule
  | cpu
  | maxPolls
  | backoff
  | iterations
  | outDir
  | filePrefix
  | noReset
  | queues
  | packetLen
  | rounds
  | inDir
  | ring
  | rxPacketLen
  | withhold
  deriving DecidableEq, Repr

namespace FlagName

def all : List FlagName :=
  [help, config, device, batch, schedule, cpu, maxPolls, backoff, iterations, outDir, filePrefix,
    noReset, queues, packetLen, rounds, inDir, ring, rxPacketLen, withhold]

def spellings : FlagName → List String
  | help => ["--help", "-h"]
  | config => ["--config", "-c"]
  | device => ["--device", "-d"]
  | batch => ["--batch", "-b"]
  | schedule => ["--schedule"]
  | cpu => ["--cpu"]
  | maxPolls => ["--max-polls"]
  | backoff => ["--backoff"]
  | iterations => ["--iterations", "-i"]
  | outDir => ["--out-dir", "-o"]
  | filePrefix => ["--prefix"]
  | noReset => ["--no-reset"]
  | queues => ["--queues", "-q"]
  | packetLen => ["--packet-len", "-l"]
  | rounds => ["--rounds", "-r"]
  | inDir => ["--in-dir"]
  | ring => ["--ring"]
  | rxPacketLen => ["--rx-packet-len"]
  | withhold => ["--withhold"]

def ofWord? (word : String) : Option FlagName :=
  all.find? (word ∈ ·.spellings)

def takesValue : FlagName → Bool
  | help | noReset => false
  | _ => true

def reads : FlagName → String → Bool
  | batch, raw | maxPolls, raw | queues, raw | packetLen, raw | ring, raw | rxPacketLen, raw
  | withhold, raw => (Text.unsigned? UInt64.size raw.toList).isSome
  | iterations, raw | rounds, raw => (Text.unsigned? UInt32.size raw.toList).isSome
  | schedule, raw => (Schedule.parse raw).isOk
  | cpu, raw => (readCpu raw).isOk
  | backoff, raw => (BackoffPolicy.parse? raw).isSome
  | _, _ => true

theorem ofWord?_eq_some {word : String} {n : FlagName} :
    ofWord? word = some n ↔ word ∈ n.spellings := by
  constructor
  · intro h
    simpa using List.find?_some h
  · intro h
    cases n <;> simp only [spellings, List.mem_cons, List.not_mem_nil, or_false] at h <;>
      rcases h with rfl | rfl <;> rfl

end FlagName

def Flag.takesValue : Flag → Bool
  | .config | .valued _ => true
  | .help | .switch _ | .unknown => false

theorem flagOf_eq_unknown {word : String} (h : FlagName.ofWord? word = none) :
    flagOf word = .unknown := by
  unfold flagOf
  split
  all_goals first | rfl | cases h

/-- Whether an argument is a flag that takes the one after it as its value. -/
def takes (word : String) : Bool :=
  (FlagName.ofWord? word).any FlagName.takesValue

theorem takesValue_flagOf (word : String) : (flagOf word).takesValue = takes word := by
  rw [takes]
  cases h : FlagName.ofWord? word with
  | none =>
    rw [flagOf_eq_unknown h]
    rfl
  | some n =>
    have hall : ∀ n ∈ FlagName.all, ∀ word ∈ n.spellings,
        (flagOf word).takesValue = n.takesValue := by decide
    exact hall n (List.mem_of_find?_eq_some h) word (FlagName.ofWord?_eq_some.mp h)

theorem isConfigFlag_iff {word : String} :
    isConfigFlag word = true ↔ FlagName.ofWord? word = some .config := by
  simp [isConfigFlag, FlagName.ofWord?_eq_some, FlagName.spellings]

theorem isOk_number (bound : Nat) (set : Nat → Change) (flag raw : String) :
    (match Text.unsigned? bound raw.toList with
      | some n => (.ok (set n) : Except Failure Change)
      | none => .error (.misuse (.invalidValue flag raw))).isOk =
      (Text.unsigned? bound raw.toList).isSome := by
  cases Text.unsigned? bound raw.toList <;> rfl

theorem isOk_map {ε α β : Type} (f : α → β) (x : Except ε α) : (f <$> x).isOk = x.isOk := by
  cases x <;> rfl

theorem isOk_read {word : String} {n : FlagName} {read : String → Except Failure Change}
    (hn : FlagName.ofWord? word = some n) (h : flagOf word = .valued read) (raw : String) :
    (read raw).isOk = n.reads raw := by
  have hw := FlagName.ofWord?_eq_some.mp hn
  clear hn
  cases n <;> simp only [FlagName.spellings, List.mem_cons, List.not_mem_nil, or_false] at hw
  case schedule =>
    cases hw
    cases h
    dsimp only [FlagName.reads]
    cases Schedule.parse raw <;> rfl
  case cpu =>
    cases hw
    cases h
    exact isOk_map _ _
  case backoff =>
    cases hw
    cases h
    refine (isOk_map _ _).trans ?_
    dsimp only [FlagName.reads]
    rw [readBackoff]
    cases BackoffPolicy.parse? raw <;> rfl
  case withhold | ring | maxPolls | rxPacketLen =>
    cases hw
    cases h
    exact isOk_number _ _ _ _
  case batch | iterations | queues | packetLen | rounds =>
    rcases hw with rfl | rfl <;> cases h <;> exact isOk_number _ _ _ _
  case device | outDir => rcases hw with rfl | rfl <;> cases h <;> rfl
  case filePrefix | inDir => cases hw; cases h; rfl
  case help | config => rcases hw with rfl | rfl <;> cases h
  case noReset => cases hw; cases h

theorem flagOf_cases {word : String} {n : FlagName} (h : FlagName.ofWord? word = some n) :
    n = .help ∧ flagOf word = .help ∨ n = .config ∧ flagOf word = .config ∨
      n = .noReset ∧ flagOf word = .switch disableReset ∨
      n ≠ .help ∧ n ≠ .config ∧ n.takesValue = true ∧ ∃ read, flagOf word = .valued read := by
  have hw := FlagName.ofWord?_eq_some.mp h
  clear h
  cases n <;> simp only [FlagName.spellings, List.mem_cons, List.not_mem_nil, or_false] at hw
  case help => rcases hw with rfl | rfl <;> exact .inl ⟨rfl, rfl⟩
  case config => rcases hw with rfl | rfl <;> exact .inr (.inl ⟨rfl, rfl⟩)
  case noReset => cases hw; exact .inr (.inr (.inl ⟨rfl, rfl⟩))
  case schedule | cpu | maxPolls | backoff | filePrefix | inDir | ring | rxPacketLen | withhold =>
    cases hw
    exact .inr (.inr (.inr ⟨by decide, by decide, rfl, _, rfl⟩))
  case device | batch | iterations | outDir | queues | packetLen | rounds =>
    rcases hw with rfl | rfl <;> exact .inr (.inr (.inr ⟨by decide, by decide, rfl, _, rfl⟩))

/-- A flag, and the argument that follows it if that is its value. -/
structure Group where
  flag : String
  value : Option String := none
  deriving DecidableEq, Repr

namespace Group

def name? (g : Group) : Option FlagName :=
  FlagName.ofWord? g.flag

def words (g : Group) : List String :=
  g.flag :: g.value.toList

def isConfig (g : Group) : Bool :=
  isConfigFlag g.flag

/-- A known flag other than help, with a value if and only if it takes one. -/
def Complete (g : Group) : Prop :=
  ∃ n, g.name? = some n ∧ n ≠ .help ∧ g.value.isSome = n.takesValue

/-- What the manual asks of a flag: it is known, and it has a value of its type if it takes one. -/
def Proper (g : Group) : Prop :=
  ∃ n, g.name? = some n ∧ n ≠ .help ∧
    (n.takesValue = true → ∃ value, g.value = some value ∧ n.reads value = true)

def Bare (g : Group) : Prop :=
  g.isConfig = true ∧ g.value = none

/-- How a group changes the settings. The configuration file has been read before. -/
def effect (g : Group) : Except Exit Change :=
  match flagOf g.flag, g.value with
  | .help, _ => .error .help
  | .config, _ => .ok id
  | .switch change, _ => .ok change
  | .valued _, none => misused (.missingValue g.flag)
  | .valued read, some value => (read value).mapError .failure
  | .unknown, _ => misused (.unknownArgument g.flag)

def change (g : Group) : Change :=
  g.effect.toOption.getD id

/-- The reading goes on after a proper group, and also after a bare configuration flag. -/
theorem exists_effect_iff (g : Group) : (∃ change, g.effect = .ok change) ↔ g.Proper ∨ g.Bare := by
  obtain ⟨flag, value⟩ := g
  simp only [Proper, Bare, name?, isConfig, isConfigFlag_iff, effect]
  cases hn : FlagName.ofWord? flag with
  | none => simp [flagOf_eq_unknown hn, misused]
  | some n =>
    simp only [Option.some.injEq, exists_eq_left']
    obtain ⟨rfl, hf⟩ | ⟨rfl, hf⟩ | ⟨rfl, hf⟩ | ⟨hhelp, hconfig, htakes, read, hf⟩ := flagOf_cases hn
    · simp [hf]
    · cases value <;> simp [hf, FlagName.reads]
    · simp [hf, FlagName.takesValue]
    · have hread := isOk_read hn hf
      cases value with
      | none => simp [hf, hconfig, htakes, misused]
      | some raw =>
        rw [hf]
        simp [hconfig, hhelp, htakes, ← hread]
        cases read raw <;> simp [Except.mapError, Except.isOk, Except.toBool]

end Group

/-- Arguments read from left to right: a flag that takes a value takes the next argument, whatever
it spells. -/
def groups : List String → List Group
  | [] => []
  | [flag] => [⟨flag, none⟩]
  | flag :: value :: rest =>
    if takes flag then ⟨flag, some value⟩ :: groups rest
    else ⟨flag, none⟩ :: groups (value :: rest)

def line (gs : List Group) : List String :=
  gs.flatMap Group.words

/-- Every row of arguments is a row of groups. -/
theorem line_groups (args : List String) : line (groups args) = args := by
  fun_induction groups args with
  | case1 => rfl
  | case2 flag => rfl
  | case3 flag value rest htakes ih => exact congrArg (flag :: value :: ·) ih
  | case4 flag value rest htakes ih => exact congrArg (flag :: ·) ih

theorem groups_of_not_takes {flag : String} (h : takes flag = false) (rest : List String) :
    groups (flag :: rest) = ⟨flag, none⟩ :: groups rest := by
  cases rest with
  | nil => rfl
  | cons value rest => rw [groups, if_neg (by simp [h])]

theorem groups_line {gs : List Group} (h : ∀ g ∈ gs, g.Complete) : groups (line gs) = gs := by
  induction gs with
  | nil => rfl
  | cons g gs ih =>
    obtain ⟨⟨n, hn, -, hv⟩, hgs⟩ := List.forall_mem_cons.mp h
    obtain ⟨flag, value⟩ := g
    have htakes : takes flag = n.takesValue := congrArg (Option.any FlagName.takesValue) hn
    have hline : line (⟨flag, value⟩ :: gs) = flag :: (value.toList ++ line gs) := rfl
    rw [hline]
    cases value with
    | none =>
      have hnot := groups_of_not_takes (htakes.trans hv.symm) (line gs)
      exact hnot.trans (congrArg _ (ih hgs))
    | some value =>
      change groups (flag :: value :: line gs) = _
      rw [groups, htakes, ← hv, ih hgs]
      rfl

def applyGroups : List Group → Settings → Except Exit Settings
  | [], s => .ok s
  | g :: gs, s =>
    match g.effect with
    | .error e => .error e
    | .ok change => applyGroups gs (change s)

theorem applyFlags_eq (args : List String) (s : Settings) :
    applyFlags args s = applyGroups (groups args) s := by
  fun_induction groups args generalizing s with
  | case1 => rfl
  | case2 flag =>
    rw [applyFlags, applyGroups, Group.effect]
    cases flagOf flag <;> rfl
  | case3 flag value rest htakes ih =>
    rw [← takesValue_flagOf] at htakes
    rw [applyFlags, applyGroups, Group.effect]
    cases hf : flagOf flag with
    | config => exact ih s
    | valued read =>
      cases hr : read value with
      | error e => simp [hr, Except.mapError]
      | ok change => simp [hr, Except.mapError, ih]
    | help | switch | unknown => simp [hf, Flag.takesValue] at htakes
  | case4 flag value rest htakes ih =>
    rw [← takesValue_flagOf] at htakes
    rw [applyFlags, applyGroups, Group.effect]
    cases hf : flagOf flag with
    | switch change => exact ih (change s)
    | help | unknown => rfl
    | config | valued => simp [hf, Flag.takesValue] at htakes

theorem applyGroups_eq_ok {gs : List Group} {s s' : Settings} :
    applyGroups gs s = .ok s' ↔
      (∀ g ∈ gs, ∃ change, g.effect = .ok change) ∧ gs.foldl (fun s g => g.change s) s = s' := by
  induction gs generalizing s with
  | nil => simp [applyGroups]
  | cons g gs ih =>
    rw [applyGroups, List.forall_mem_cons, List.foldl_cons, Group.change]
    cases g.effect with
    | error e => simp
    | ok change => simpa [Except.toOption] using ih

end DmaBurst.CommandLine
