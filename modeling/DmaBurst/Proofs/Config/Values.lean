import DmaBurst.Config.Decode
import Mathlib.Data.List.Forall2

namespace DmaBurst.Config

open Toml (Value)

def IsSize (v : Value) (n : Nat) : Prop :=
  n < UInt64.size ∧ v = .integer n

def IsWord (v : Value) (w : UInt32) : Prop :=
  v = .integer w.toNat

def IsMicros (v : Value) (micros : UInt64) : Prop :=
  v = .integer micros.toNat

def IsText (v : Value) (s : String) : Prop :=
  v = .string s

def IsFlag (v : Value) (b : Bool) : Prop :=
  v = .boolean b

def IsList {β : Type} (Means : Value → β → Prop) (v : Value) (bs : List β) : Prop :=
  ∃ items, v = .array items ∧ List.Forall₂ Means items bs

def IsSome {β : Type} (Means : Value → β → Prop) (v : Value) (o : Option β) : Prop :=
  ∃ b, o = some b ∧ Means v b

def IsEmpty (v : Value) : Prop :=
  v = .table [] ∨ v = .array []

def IsOnly {β : Type} (key : String) (Means : Value → β → Prop) (v : Value) (b : β) : Prop :=
  ∃ x, Means x b ∧ (v = .table [(key, x)] ∨ ∃ rest, v = .array (x :: rest))

/-- An alternative without data: its name, or a table from its name to nothing. -/
def IsName (name : String) (v : Value) : Prop :=
  v = .string name ∨ ∃ x, v = .table [(name, x)] ∧ IsEmpty x

inductive IsPolicy : Value → BackoffPolicy → Prop where
  | spin {v : Value} : IsName "spin" v → IsPolicy v .spin
  | yield {v : Value} : IsName "yield" v → IsPolicy v .yield
  | sleep {x : Value} {micros : UInt64} :
    IsOnly "micros" IsMicros x micros → IsPolicy (.table [("sleep", x)]) (.sleep micros)
  | exponential {x : Value} {maxMicros : UInt64} : IsOnly "max_micros" IsMicros x maxMicros →
    IsPolicy (.table [("exponential", x)]) (.exponential maxMicros)

inductive IsSchedule : Value → Schedule → Prop where
  | threadPerQueue {v : Value} : IsName "thread-per-queue" v → IsSchedule v .threadPerQueue
  | roundRobin {v : Value} : IsName "round-robin" v → IsSchedule v .roundRobin

inductive IsCpu : Value → CpuPolicy → Prop where
  | auto {v : Value} : IsName "auto" v → IsCpu v .auto
  | disabled {v : Value} : IsName "disabled" v → IsCpu v .disabled
  | manual {x : Value} {cores : List Nat} :
    IsOnly "cores" (IsList IsSize) x cores → IsCpu (.table [("manual", x)]) (.manual cores)

/-- A reader takes the values that mean something, as what they mean. -/
def Reads {β : Type} (read : Value → Option β) (Means : Value → β → Prop) : Prop :=
  ∀ v b, read v = some b ↔ Means v b

theorem reads_below (bound : Nat) :
    Reads (readBelow bound) fun v n => n < bound ∧ v = .integer n := by
  intro v n
  change readBelow bound v = some n ↔ n < bound ∧ v = .integer n
  unfold readBelow
  split
  · next m =>
    rw [Option.ite_none_right_eq_some, Value.integer.injEq, Option.some_inj]
    omega
  · next hv =>
    exact ⟨nofun, fun ⟨_, hn⟩ => absurd hn (hv n)⟩

theorem reads_size : Reads readSize IsSize :=
  reads_below UInt64.size

theorem reads_word : Reads readWord IsWord := by
  intro v w
  refine Option.map_eq_some_iff.trans ⟨?_, fun h => ?_⟩
  · rintro ⟨n, hn, rfl⟩
    obtain ⟨hlt, rfl⟩ := (reads_below _ v n).mp hn
    rw [IsWord, UInt32.toNat_ofNat_of_lt' hlt]
  · exact ⟨w.toNat, (reads_below _ v _).mpr ⟨w.toNat_lt_size, h⟩, UInt32.ofNat_toNat⟩

theorem reads_micros : Reads readMicros IsMicros := by
  intro v micros
  refine Option.map_eq_some_iff.trans ⟨?_, fun h => ?_⟩
  · rintro ⟨n, hn, rfl⟩
    obtain ⟨hlt, rfl⟩ := (reads_size v n).mp hn
    rw [IsMicros, UInt64.toNat_ofNat_of_lt' hlt]
  · exact ⟨micros.toNat, (reads_size v _).mpr ⟨micros.toNat_lt_size, h⟩, UInt64.ofNat_toNat⟩

theorem reads_text : Reads readText IsText := by
  intro v s
  cases v <;> simp [readText, IsText]

theorem reads_flag : Reads readFlag IsFlag := by
  intro v b
  cases v <;> simp [readFlag, IsFlag]

section Read

variable {β : Type} {read : Value → Option β} {Means : Value → β → Prop}

theorem Reads.mapM (h : Reads read Means) (items : List Value) (bs : List β) :
    items.mapM read = some bs ↔ List.Forall₂ Means items bs := by
  induction items generalizing bs with
  | nil => simp [eq_comm]
  | cons v items ih =>
    rw [List.mapM_cons, List.forall₂_cons_left_iff]
    constructor
    · intro hread
      obtain ⟨b, hb, hread⟩ := Option.bind_eq_some_iff.mp hread
      obtain ⟨bs, hbs, hread⟩ := Option.bind_eq_some_iff.mp hread
      exact ⟨b, bs, (h v b).mp hb, (ih bs).mp hbs, (Option.some.inj hread).symm⟩
    · rintro ⟨b, bs, hb, hbs, rfl⟩
      rw [(h v b).mpr hb, (ih bs).mpr hbs]
      rfl

theorem Reads.list (h : Reads read Means) : Reads (readList read) (IsList Means) := by
  intro v bs
  unfold readList IsList
  split
  · next items => simp [h.mapM]
  · next hv => exact ⟨nofun, fun ⟨items, hitems, _⟩ => absurd hitems (hv items)⟩

theorem Reads.optional (h : Reads read Means) :
    Reads (fun v => some <$> read v) (IsSome Means) := by
  intro v o
  refine Option.map_eq_some_iff.trans ⟨?_, ?_⟩
  · rintro ⟨b, hb, rfl⟩
    exact ⟨b, rfl, (h v b).mp hb⟩
  · rintro ⟨b, rfl, hb⟩
    exact ⟨b, (h v b).mpr hb, rfl⟩

theorem Reads.only (h : Reads read Means) (key : String) :
    Reads (readOnly key read) (IsOnly key Means) := by
  intro v b
  constructor
  · intro hread
    unfold readOnly at hread
    split at hread
    · next k x =>
      obtain ⟨rfl, hx⟩ := Option.ite_none_right_eq_some.mp hread
      exact ⟨x, (h x b).mp hx, .inl rfl⟩
    · next x rest => exact ⟨x, (h x b).mp hread, .inr ⟨rest, rfl⟩⟩
    · cases hread
  · rintro ⟨x, hx, rfl | ⟨rest, rfl⟩⟩
    · exact (if_pos rfl).trans ((h x b).mpr hx)
    · exact (h x b).mpr hx

end Read

theorem reads_empty : Reads readEmpty fun v _ => IsEmpty v := by
  intro v u
  unfold readEmpty
  split <;> simp_all [IsEmpty]

theorem isName_table {β : Type} {name : String} {x : Value} {b b' : β}
    (h : (fun _ => b) <$> readEmpty x = some b') : b = b' ∧ IsName name (.table [(name, x)]) := by
  obtain ⟨u, hu, hb⟩ := Option.map_eq_some_iff.mp h
  exact ⟨hb, .inr ⟨x, rfl, (reads_empty x u).mp hu⟩⟩

theorem reads_policy : Reads readPolicy IsPolicy := by
  intro v policy
  constructor
  · intro h
    unfold readPolicy at h
    split at h
    · cases h
      exact .spin (.inl rfl)
    · cases h
      exact .yield (.inl rfl)
    · obtain ⟨rfl, hname⟩ := isName_table h
      exact .spin hname
    · obtain ⟨rfl, hname⟩ := isName_table h
      exact .yield hname
    · obtain ⟨micros, hmicros, rfl⟩ := Option.map_eq_some_iff.mp h
      exact .sleep ((reads_micros.only "micros" _ _).mp hmicros)
    · obtain ⟨micros, hmicros, rfl⟩ := Option.map_eq_some_iff.mp h
      exact .exponential ((reads_micros.only "max_micros" _ _).mp hmicros)
    · cases h
  · intro h
    cases h with
    | spin hname => obtain rfl | ⟨x, rfl, rfl | rfl⟩ := hname <;> rfl
    | yield hname => obtain rfl | ⟨x, rfl, rfl | rfl⟩ := hname <;> rfl
    | sleep hx =>
      have hread := (reads_micros.only "micros" _ _).mpr hx
      exact congrArg (Option.map BackoffPolicy.sleep) hread
    | exponential hx =>
      have hread := (reads_micros.only "max_micros" _ _).mpr hx
      exact congrArg (Option.map BackoffPolicy.exponential) hread

theorem reads_schedule : Reads readSchedule IsSchedule := by
  intro v schedule
  constructor
  · intro h
    unfold readSchedule at h
    split at h
    · cases h
      exact .threadPerQueue (.inl rfl)
    · cases h
      exact .roundRobin (.inl rfl)
    · obtain ⟨rfl, hname⟩ := isName_table h
      exact .threadPerQueue hname
    · obtain ⟨rfl, hname⟩ := isName_table h
      exact .roundRobin hname
    · cases h
  · intro h
    cases h with
    | threadPerQueue hname => obtain rfl | ⟨x, rfl, rfl | rfl⟩ := hname <;> rfl
    | roundRobin hname => obtain rfl | ⟨x, rfl, rfl | rfl⟩ := hname <;> rfl

theorem reads_cpu : Reads readCpu IsCpu := by
  intro v cpu
  constructor
  · intro h
    unfold readCpu at h
    split at h
    · cases h
      exact .auto (.inl rfl)
    · cases h
      exact .disabled (.inl rfl)
    · obtain ⟨rfl, hname⟩ := isName_table h
      exact .auto hname
    · obtain ⟨rfl, hname⟩ := isName_table h
      exact .disabled hname
    · obtain ⟨cores, hread, rfl⟩ := Option.map_eq_some_iff.mp h
      exact .manual ((reads_size.list.only "cores" _ _).mp hread)
    · cases h
  · intro h
    cases h with
    | auto hname => obtain rfl | ⟨x, rfl, rfl | rfl⟩ := hname <;> rfl
    | disabled hname => obtain rfl | ⟨x, rfl, rfl | rfl⟩ := hname <;> rfl
    | manual hx =>
      have hread := (reads_size.list.only "cores" _ _).mpr hx
      exact congrArg (Option.map CpuPolicy.manual) hread

end DmaBurst.Config
