import DmaBurst.Config.Basic
import DmaBurst.Io.FileTree
import DmaBurst.Toml.Document

namespace DmaBurst.Config

open Toml (Value)

abbrev Fields (α : Type) := List (String × (Value → α → Option α))

def field {α β : Type} (key : String) (read : Value → Option β) (set : β → α → α) :
    String × (Value → α → Option α) :=
  (key, fun v a => (set · a) <$> read v)

/-- Reads a record over its defaults: a table with keys of the record only, or an array of values in
the order of the fields. -/
def readRecord {α : Type} (fields : Fields α) (defaults : α) : Value → Option α
  | .table entries => entries.foldlM (fun a (k, v) => do (← fields.lookup k) v a) defaults
  | .array items => (fields.zip items).foldlM (fun a ((_, set), v) => set v a) defaults
  | _ => none

def readBelow (bound : Nat) : Value → Option Nat
  | .integer n => if 0 ≤ n ∧ n < bound then some n.toNat else none
  | _ => none

def readSize : Value → Option Nat :=
  readBelow UInt64.size

def readWord (v : Value) : Option UInt32 :=
  UInt32.ofNat <$> readBelow UInt32.size v

def readMicros (v : Value) : Option UInt64 :=
  UInt64.ofNat <$> readSize v

def readText : Value → Option String
  | .string s => some s
  | _ => none

def readFlag : Value → Option Bool
  | .boolean b => some b
  | _ => none

def readList {α : Type} (read : Value → Option α) : Value → Option (List α)
  | .array items => items.mapM read
  | _ => none

/-- An alternative without data, written as a table of one entry: the entry is empty. -/
def readEmpty : Value → Option Unit
  | .table [] | .array [] => some ()
  | _ => none

/-- An alternative with one field: a table of exactly that field, or an array that starts with its
value. -/
def readOnly {α : Type} (key : String) (read : Value → Option α) : Value → Option α
  | .table [(k, v)] => if k = key then read v else none
  | .array (v :: _) => read v
  | _ => none

def readPolicy : Value → Option BackoffPolicy
  | .string "spin" => some .spin
  | .string "yield" => some .yield
  | .table [("spin", v)] => (fun _ => .spin) <$> readEmpty v
  | .table [("yield", v)] => (fun _ => .yield) <$> readEmpty v
  | .table [("sleep", v)] => .sleep <$> readOnly "micros" readMicros v
  | .table [("exponential", v)] => .exponential <$> readOnly "max_micros" readMicros v
  | _ => none

def readSchedule : Value → Option Schedule
  | .string "thread-per-queue" => some .threadPerQueue
  | .string "round-robin" => some .roundRobin
  | .table [("thread-per-queue", v)] => (fun _ => .threadPerQueue) <$> readEmpty v
  | .table [("round-robin", v)] => (fun _ => .roundRobin) <$> readEmpty v
  | _ => none

def readCpu : Value → Option CpuPolicy
  | .string "auto" => some .auto
  | .string "disabled" => some .disabled
  | .table [("auto", v)] => (fun _ => .auto) <$> readEmpty v
  | .table [("disabled", v)] => (fun _ => .disabled) <$> readEmpty v
  | .table [("manual", v)] => .manual <$> readOnly "cores" (readList readSize) v
  | _ => none

def resetFields : Fields ResetConfig := [
  field "enabled" readFlag fun enabled c => { c with enabled },
  field "compatible" readText fun compatible c => { c with compatible },
  field "index" readSize fun index c => { c with index },
  field "address" readWord fun address c => { c with address },
  field "value" readWord fun value c => { c with value }]

def rxFields : Fields RxConfig := [
  field "iterations" readWord fun iterations c => { c with iterations },
  field "packets_per_iteration" (readList readWord) fun packetsPerIteration c =>
    { c with packetsPerIteration },
  field "max_polls" readSize fun cap c => { c with maxPolls := some cap },
  field "backoff" readPolicy fun backoff c => { c with backoff },
  field "reset" (readRecord resetFields {}) fun reset c => { c with reset },
  field "output_dir" readText fun outputDir c => { c with outputDir },
  field "file_prefix" readText fun filePrefix c => { c with filePrefix }]

def txFields : Fields TxConfig := [
  field "queues" readSize fun queues c => { c with queues },
  field "packet_len" readSize fun packetLen c => { c with packetLen },
  field "rounds" readWord fun rounds c => { c with rounds },
  field "max_polls" readSize fun cap c => { c with maxPolls := some cap },
  field "backoff" readPolicy fun backoff c => { c with backoff },
  field "input_dir" readText fun dir c => { c with inputDir := some dir },
  field "file_prefix" readText fun filePrefix c => { c with filePrefix }]

def configFields : Fields Config := [
  field "device" readText fun device c => { c with device },
  field "batch_size" readSize fun batchSize c => { c with batchSize },
  field "schedule" readSchedule fun schedule c => { c with schedule },
  field "cpu" readCpu fun cpu c => { c with cpu },
  field "rx" (readRecord rxFields {}) fun rx c => { c with rx },
  field "tx" (readRecord txFields {}) fun tx c => { c with tx }]

def ofValue (v : Value) : Option Config :=
  readRecord configFields {} v

/-- Reads a configuration document. Missing keys keep their defaults, unknown ones are refused. -/
def ofText (text : String) : Except ConfigError Config :=
  match Toml.parse text >>= ofValue with
  | some c => .ok c
  | none => .error .parse

def load (path : String) (t : FileTree) : Except ConfigError Config :=
  match t.readText path with
  | .error cause => .error (.read path cause)
  | .ok text => ofText text

end DmaBurst.Config
