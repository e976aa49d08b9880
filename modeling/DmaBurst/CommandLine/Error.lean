import DmaBurst.Io.QueueFile
import DmaBurst.Run.Session
import DmaBurst.Worker.Backoff

namespace DmaBurst.CommandLine

inductive Misuse where
  | missingCommand
  | unknownCommand (word : String)
  | unknownArgument (word : String)
  | missingValue (flag : String)
  | invalidValue (flag raw : String)
  | invalidCores (raw : String)
  | invalidBackoff (raw : String)
  | emptyRing
  deriving DecidableEq, Repr

def Misuse.message : Misuse → String
  | .missingCommand => "missing command"
  | .unknownCommand word => s!"unknown command: {word}"
  | .unknownArgument word => s!"unknown argument: {word}"
  | .missingValue flag => s!"missing value for {flag}"
  | .invalidValue flag raw => s!"invalid value for {flag}: {raw}"
  | .invalidCores raw => s!"invalid core list: {raw}"
  | .invalidBackoff raw => BackoffPolicy.parseRefusal raw
  | .emptyRing => "--ring must be positive"

inductive Failure where
  | misuse (cause : Misuse)
  | config (cause : ConfigError)
  | «open» (cause : OpenError)
  | run (cause : RunError)
  deriving DecidableEq, Repr

def Failure.message : Failure → String
  | .misuse cause => cause.message
  | .config cause => cause.message
  | .open cause => cause.message
  | .run cause => cause.message

end DmaBurst.CommandLine
