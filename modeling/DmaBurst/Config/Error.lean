import DmaBurst.Fault
import DmaBurst.Text.Quoted

namespace DmaBurst

inductive Invalid where
  | device
  | batchSize (size : Nat)
  | iterations
  | noQueues
  | idleQueue (index : Nat)
  | maxPolls
  | queues
  | packetLen
  | rounds
  | schedule (text : String)
  deriving DecidableEq, Repr

def maxBatchSize : Nat := 1024

namespace Invalid

def field : Invalid → String
  | .device => "device"
  | .batchSize _ => "batch_size"
  | .iterations => "rx.iterations"
  | .noQueues | .idleQueue _ => "rx.packets_per_iteration"
  | .maxPolls => "max_polls"
  | .queues => "tx.queues"
  | .packetLen => "tx.packet_len"
  | .rounds => "tx.rounds"
  | .schedule _ => "schedule"

def reason : Invalid → String
  | .device => "must not be empty"
  | .batchSize size => s!"{size} is outside 1..={maxBatchSize}"
  | .noQueues => "needs at least one queue"
  | .idleQueue index => s!"queue {index} expects no packets"
  | .schedule text => s!"{Text.quoted text} (expected thread-per-queue or round-robin)"
  | .iterations | .maxPolls | .queues | .packetLen | .rounds => "must be positive"

end Invalid

inductive ConfigError where
  | read (path : String) (cause : IoError)
  | parse
  | invalid (value : Invalid)
  deriving DecidableEq, Repr

def ConfigError.message : ConfigError → String
  | .read path cause => s!"failed to read {path}: {cause.message}"
  | .parse => "invalid configuration"
  | .invalid value => s!"invalid {value.field}: {value.reason}"

end DmaBurst
