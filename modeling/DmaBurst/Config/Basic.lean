import DmaBurst.Card.Basic
import DmaBurst.Config.Error
import DmaBurst.Placement
import DmaBurst.Worker.Backoff
import DmaBurst.Worker.Budget

namespace DmaBurst

inductive Schedule where
  | threadPerQueue
  | roundRobin
  deriving DecidableEq, Repr

namespace Schedule

def text : Schedule → String
  | .threadPerQueue => "thread-per-queue"
  | .roundRobin => "round-robin"

def parse : String → Except ConfigError Schedule
  | "thread-per-queue" | "threads" => .ok .threadPerQueue
  | "round-robin" | "sequential" => .ok .roundRobin
  | other => .error (.invalid (.schedule other))

end Schedule

/-- The register write that follows the start of the receive queues. -/
structure ResetConfig where
  enabled : Bool := true
  compatible : String := defaultResetTarget
  index : Nat := 0
  address : UInt32 := 0
  value : UInt32 := 1
  deriving DecidableEq, Repr

/-- A receive run. The length of `packetsPerIteration` is the number of queues. -/
structure RxConfig where
  iterations : UInt32 := 6
  packetsPerIteration : List UInt32 :=
    [18, 18, 18, 18, 18, 14, 14, 15, 15, 18, 18, 18, 18, 18, 18]
  maxPolls : Option Nat := none
  backoff : BackoffPolicy := .spin
  reset : ResetConfig := {}
  outputDir : String := "."
  filePrefix : String := "dma_data_"
  deriving DecidableEq, Repr

/-- A transmit run. Without an input directory a pattern is sent. -/
structure TxConfig where
  queues : Nat := 4
  packetLen : Nat := 64
  rounds : UInt32 := 1
  maxPolls : Option Nat := none
  backoff : BackoffPolicy := .spin
  inputDir : Option String := none
  filePrefix : String := "dma_data_"
  deriving DecidableEq, Repr

structure Config where
  device : String := "0"
  batchSize : Nat := 64
  schedule : Schedule := .threadPerQueue
  cpu : CpuPolicy := .disabled
  rx : RxConfig := {}
  tx : TxConfig := {}
  deriving DecidableEq, Repr

namespace RxConfig

def queueCount (rx : RxConfig) : Nat :=
  rx.packetsPerIteration.length

def budgets (rx : RxConfig) : Except Fault (List Int) :=
  rx.packetsPerIteration.mapM fun packets =>
    checked .multiplyOverflow (packets.toNat * rx.iterations.toNat)

end RxConfig

namespace Config

def firstInvalid (c : Config) : Option Invalid :=
  if c.device = "" then some .device
  else if c.batchSize = 0 ∨ maxBatchSize < c.batchSize then some (.batchSize c.batchSize)
  else if c.rx.iterations = 0 then some .iterations
  else if c.rx.packetsPerIteration = [] then some .noQueues
  else match c.rx.packetsPerIteration.findIdx? (· = 0) with
  | some index => some (.idleQueue index)
  | none =>
    if c.rx.maxPolls = some 0 ∨ c.tx.maxPolls = some 0 then some .maxPolls
    else if c.tx.queues = 0 then some .queues
    else if c.tx.packetLen = 0 then some .packetLen
    else if c.tx.rounds = 0 then some .rounds
    else none

def validate (c : Config) : Except ConfigError Unit :=
  match c.firstInvalid with
  | some value => .error (.invalid value)
  | none => .ok ()

end Config

end DmaBurst
