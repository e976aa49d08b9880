import DmaBurst.CommandLine.Emulation
import DmaBurst.CommandLine.Usage
import DmaBurst.Run.Receive
import DmaBurst.Run.Transmit

namespace DmaBurst.CommandLine

/-- What a command leaves behind. A command that succeeds has reports to print. -/
structure Outcome where
  code : Nat
  reports : List WorkerReport := []
  stderr : String := ""
  files : FileTree

abbrev Result := Except (Halt Failure) RunReport

def receive (s : Settings) (t : FileTree) : Result × FileTree :=
  let rx := s.config.rx
  match createSinks rx.outputDir rx.filePrefix rx.queueCount t with
  | (.error e, t) => (.error (.refused (.open e)), t)
  | (.ok sinks, t) =>
    let prepared := do
      let card ← Card.create (rxSpec s)
      return (card, feeds s.emulation (← rx.budgets))
    match prepared with
    | .error f => (.error (.fault f), closeSinks sinks t)
    | .ok (card, feeds) =>
      let (answer, sinks, _, _) := Receive.run s.config false sinks feeds card
      (answer.mapError (·.map .run), closeSinks sinks t)

def sources (s : Settings) (t : FileTree) : Except OpenError (List (FileSource ⊕ PatternSource)) :=
  let tx := s.config.tx
  match tx.inputDir with
  | some dir => (·.map .inl) <$> openSources dir tx.filePrefix tx.queues tx.packetLen t
  | none => .ok (List.replicate tx.queues (.inr { packetLen := tx.packetLen }))

def transmit (s : Settings) (t : FileTree) : Result :=
  match sources s t with
  | .error e => .error (.refused (.open e))
  | .ok sources =>
    match Card.create (txSpec s) with
    | .error f => .error (.fault f)
    | .ok card =>
      let (answer, _, _, _) :=
        Transmit.run s.config false sources (Drain.mk s.config.tx.queues) card
      answer.mapError (·.map .run)

def programName : String := "burstq"

def failed (e : Failure) (files : FileTree) : Outcome where
  code := 1
  stderr := s!"{programName}: {e.message}\n"
  files

def finished (r : RunReport) (files : FileTree) : Outcome where
  code := 0
  reports := r.workers
  stderr :=
    if r.incomplete.isEmpty then ""
    else s!"{programName}: {r.incomplete.length} queue(s) did not complete\n"
  files

def outcome (answer : Result) (files : FileTree) : Outcome :=
  match answer with
  | .ok r => finished r files
  | .error (.refused e) => failed e files
  | .error (.fault f) => { code := 101, stderr := f.message ++ "\n", files }
  | .error .stuck => { code := 102, files }

def execute (mode : Mode) (s : Settings) (t : FileTree) : Outcome :=
  match s.config.validate with
  | .error e => failed (.config e) t
  | .ok () =>
    match mode with
    | .receive => let (answer, t) := receive s t; outcome answer t
    | .transmit => outcome (transmit s t) t

def dataFiles (mode : Mode) (s : Settings) : List String :=
  let rx := s.config.rx
  let tx := s.config.tx
  match mode with
  | .receive => (List.range rx.queueCount).map (Path.queueFile rx.outputDir rx.filePrefix)
  | .transmit =>
    tx.inputDir.elim [] fun dir => (List.range tx.queues).map (Path.queueFile dir tx.filePrefix)

/-- Runs a command on a tree of files. The arguments come after the name of the program. -/
def run (args : List String) (t : FileTree) : Outcome :=
  match parse args t with
  | .error .help => { code := 0, stderr := usage, files := t }
  | .error (.failure e) =>
    let o := failed e t
    if e = .misuse .missingCommand then { o with stderr := usage ++ o.stderr } else o
  | .ok (mode, s) => execute mode s t

end DmaBurst.CommandLine
