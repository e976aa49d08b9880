import DmaBurst.Fault
import DmaBurst.Text.Quoted

namespace DmaBurst

inductive Resource where
  | device (identifier : String)
  | component (offset : Nat)
  | queue (id : QueueId)
  deriving DecidableEq, Repr

def offsetText (offset : Nat) : String :=
  "0x" ++ String.ofList (Text.hexDigits offset)

def Resource.text : Resource → String
  | .device identifier => "device " ++ Text.quoted identifier
  | .component offset => "component at " ++ offsetText offset
  | .queue id => "queue " ++ id.text

inductive Denial where
  | noSuchDevice
  | alreadyOpen
  | tooFewQueues (count : Nat) (direction : Direction)
  | openRefused
  | alreadyBound
  | noComponent
  deriving DecidableEq, Repr

def Denial.text : Denial → String
  | .noSuchDevice => "no such device"
  | .alreadyOpen => "already open"
  | .tooFewQueues count direction => s!"device has {count} {direction.text} queues"
  | .openRefused => "open refused"
  | .alreadyBound => "already bound"
  | .noComponent => "no component at this offset"

inductive DeviceError where
  | unavailable (resource : Resource) (reason : Denial)
  | notFound (compatible : String) (index : Nat)
  | activationFailed (queue : QueueId)
  deriving DecidableEq, Repr

def DeviceError.message : DeviceError → String
  | .unavailable resource reason => s!"{resource.text} unavailable: {reason.text}"
  | .notFound compatible index => s!"component {Text.quoted compatible} #{index} not found"
  | .activationFailed queue => s!"queue {queue.text} failed to start: channel rejected activation"

end DmaBurst
