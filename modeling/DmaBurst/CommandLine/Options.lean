import DmaBurst.CommandLine.Error
import DmaBurst.Config.Decode
import DmaBurst.Text.Basic

namespace DmaBurst.CommandLine

inductive Mode where
  | receive
  | transmit
  deriving DecidableEq, Repr

/-- Knobs of the emulated card. `withhold` packets of every queue are never delivered. -/
structure Emulation where
  ringCapacity : Nat := 1024
  rxPacketLen : Nat := 64
  withhold : Nat := 0
  deriving DecidableEq, Repr

structure Settings where
  config : Config := {}
  emulation : Emulation := {}
  deriving DecidableEq, Repr

inductive Exit where
  | help
  | failure (cause : Failure)
  deriving DecidableEq, Repr

def misused {α : Type} (cause : Misuse) : Except Exit α :=
  .error (.failure (.misuse cause))

abbrev Change := Settings → Settings

/-- A flag by what follows it: nothing, the configuration file, or a value that changes the
settings. -/
inductive Flag where
  | help
  | config
  | switch (change : Change)
  | valued (read : String → Except Failure Change)
  | unknown

def onConfig (f : Config → Config) : Change := fun s =>
  { s with config := f s.config }

def onRx (f : RxConfig → RxConfig) : Change :=
  onConfig fun c => { c with rx := f c.rx }

def onTx (f : TxConfig → TxConfig) : Change :=
  onConfig fun c => { c with tx := f c.tx }

def onEmulation (f : Emulation → Emulation) : Change := fun s =>
  { s with emulation := f s.emulation }

def number (flag : String) (bound : Nat) (set : Nat → Change) : Flag :=
  .valued fun raw =>
    match Text.unsigned? bound raw.toList with
    | some n => .ok (set n)
    | none => .error (.misuse (.invalidValue flag raw))

def word (flag : String) (set : UInt32 → Change) : Flag :=
  number flag UInt32.size fun n => set (.ofNat n)

def size (flag : String) (set : Nat → Change) : Flag :=
  number flag UInt64.size set

def text (set : String → Change) : Flag :=
  .valued fun raw => .ok (set raw)

def cores? (raw : String) : Option (List Nat) :=
  (Text.splitAt ',' raw.toList).mapM fun piece => Text.unsigned? UInt64.size (Text.trim piece)

def readCpu (raw : String) : Except Failure CpuPolicy :=
  match raw with
  | "auto" => .ok .auto
  | "off" | "none" => .ok .disabled
  | list =>
    match cores? list with
    | some cores => .ok (.manual cores)
    | none => .error (.misuse (.invalidCores list))

def readBackoff (raw : String) : Except Failure BackoffPolicy :=
  match BackoffPolicy.parse? raw with
  | some policy => .ok policy
  | none => .error (.misuse (.invalidBackoff raw))

def setMaxPolls (cap : Nat) : Change :=
  onRx (fun rx => { rx with maxPolls := some cap }) ∘ onTx fun tx => { tx with maxPolls := some cap }

def setBackoff (backoff : BackoffPolicy) : Change :=
  onRx (fun rx => { rx with backoff }) ∘ onTx fun tx => { tx with backoff }

def setFilePrefix (filePrefix : String) : Change :=
  onRx (fun rx => { rx with filePrefix }) ∘ onTx fun tx => { tx with filePrefix }

def disableReset : Change :=
  onRx fun rx => { rx with reset := { rx.reset with enabled := false } }

def flagOf (flag : String) : Flag :=
  match flag with
  | "--help" | "-h" => .help
  | "--config" | "-c" => .config
  | "--device" | "-d" => text fun device => onConfig fun c => { c with device }
  | "--batch" | "-b" => size flag fun batchSize => onConfig fun c => { c with batchSize }
  | "--schedule" => .valued fun raw =>
    match Schedule.parse raw with
    | .ok schedule => .ok (onConfig fun c => { c with schedule })
    | .error e => .error (.config e)
  | "--cpu" => .valued fun raw => (fun cpu => onConfig fun c => { c with cpu }) <$> readCpu raw
  | "--max-polls" => size flag setMaxPolls
  | "--backoff" => .valued fun raw => setBackoff <$> readBackoff raw
  | "--iterations" | "-i" => word flag fun iterations => onRx fun rx => { rx with iterations }
  | "--out-dir" | "-o" => text fun outputDir => onRx fun rx => { rx with outputDir }
  | "--prefix" => text setFilePrefix
  | "--no-reset" => .switch disableReset
  | "--queues" | "-q" => size flag fun queues => onTx fun tx => { tx with queues }
  | "--packet-len" | "-l" => size flag fun packetLen => onTx fun tx => { tx with packetLen }
  | "--rounds" | "-r" => word flag fun rounds => onTx fun tx => { tx with rounds }
  | "--in-dir" => text fun dir => onTx fun tx => { tx with inputDir := some dir }
  | "--ring" => size flag fun ringCapacity => onEmulation fun e => { e with ringCapacity }
  | "--rx-packet-len" => size flag fun rxPacketLen => onEmulation fun e => { e with rxPacketLen }
  | "--withhold" => size flag fun withhold => onEmulation fun e => { e with withhold }
  | _ => .unknown

/-- Applies flags from left to right. The value of a flag is the next argument, whatever it is; that
of a configuration file has been read before. -/
def applyFlags : List String → Settings → Except Exit Settings
  | [], s => .ok s
  | [flag], s =>
    match flagOf flag with
    | .help => .error .help
    | .config => .ok s
    | .switch change => .ok (change s)
    | .valued _ => misused (.missingValue flag)
    | .unknown => misused (.unknownArgument flag)
  | flag :: value :: rest, s =>
    match flagOf flag with
    | .help => .error .help
    | .config => applyFlags rest s
    | .switch change => applyFlags (value :: rest) (change s)
    | .valued read =>
      match read value with
      | .ok change => applyFlags rest (change s)
      | .error e => .error (.failure e)
    | .unknown => misused (.unknownArgument flag)

def isConfigFlag (arg : String) : Bool :=
  arg = "--config" || arg = "-c"

def fromConfigFlag (args : List String) : List String :=
  args.dropWhile (!isConfigFlag ·)

def configFile? (args : List String) : Option String :=
  (fromConfigFlag args)[1]?

/-- The configuration that the other flags override: the file named after the first argument that
spells the configuration flag. The arguments come after the name of the program, which is left out
of the search even if it spells the flag. -/
def baseConfig (args : List String) (t : FileTree) : Except Exit Config :=
  match fromConfigFlag args with
  | [] => .ok {}
  | [flag] => misused (.missingValue flag)
  | _ :: path :: _ => (Config.load path t).mapError fun e => .failure (.config e)

def withholdMaxPolls : Nat := 1000000

/-- Withheld packets never arrive, so a receive run without a poll cap is given one. -/
def capped (s : Settings) : Settings :=
  if 0 < s.emulation.withhold ∧ s.config.rx.maxPolls = none then
    onRx (fun rx => { rx with maxPolls := some withholdMaxPolls }) s
  else s

def modeOf (command : String) : Except Exit Mode :=
  match command with
  | "receive" | "rx" => .ok .receive
  | "transmit" | "tx" => .ok .transmit
  | "--help" | "-h" => .error .help
  | other => misused (.unknownCommand other)

def parse (args : List String) (t : FileTree) : Except Exit (Mode × Settings) :=
  match args with
  | [] => misused .missingCommand
  | command :: flags => do
    let mode ← modeOf command
    let config ← baseConfig flags t
    let s ← applyFlags flags { config }
    if s.emulation.ringCapacity = 0 then misused .emptyRing
    else return (mode, capped s)

end DmaBurst.CommandLine
