import DmaBurst.Run.Session

namespace DmaBurst

structure RunReport where
  direction : Direction
  workers : List WorkerReport
  deriving DecidableEq, Repr

namespace RunReport

def incomplete (r : RunReport) : List WorkerReport :=
  r.workers.filter (·.status ≠ .complete)

def isComplete (r : RunReport) : Bool :=
  r.workers.all (·.status = .complete)

def totalPackets (r : RunReport) : Nat :=
  r.workers.foldl (fun n w => n + w.stats.packets) 0

end RunReport

/-- What a run works on: a card, perhaps with an account of what is done. -/
class Ground (κ : Type) where
  onCard {α : Type} : (Card → α × Card) → κ → α × κ

instance : Ground Card where
  onCard act card := act card

@[simp]
theorem Ground.onCard_card {α : Type} (act : Card → α × Card) (card : Card) :
    onCard act card = act card :=
  rfl

class Polled (ω κ : Type) where
  pollAt : List Bool → ω → κ → Except (Halt WorkerError) Poll × ω × κ

/-- A worker of a run. `ended` is its report or its failure, and nothing while it is polled. -/
structure Station (ω : Type) where
  worker : ω
  ended : Option (Except (Halt WorkerError) WorkerReport) := none

/-- The workers of a run on one card, and the flag that the first failure raises. -/
structure Floor (ω : Type) (κ : Type := Card) where
  stations : List (Station ω)
  abort : Bool := false
  card : κ

/-- The hardware side of a run: what happens to the card between two sweeps over the workers. -/
class Hardware (η : Type) where
  act : η → Card → η × Card

instance : Hardware Unit where
  act h card := (h, card)

namespace Drive

variable {ω η κ : Type} [Worker ω] [Hardware η] [Ground κ] [Polled ω κ]

def pollOn (flags : List Bool) (w : ω) (card : Card) : Except (Halt WorkerError) Poll × ω × Card :=
  let ((answer, w), card) := card.withRing (Worker.queue w).channel.id fun r =>
    let (answer, w, r) := Worker.poll flags w r
    ((answer, w), r)
  (answer, w, card)

instance : Polled ω Card where
  pollAt := pollOn

omit [Hardware η] [Ground κ] [Polled ω κ] in
@[simp]
theorem pollAt_card (flags : List Bool) (w : ω) (card : Card) :
    Polled.pollAt flags w card = pollOn flags w card :=
  rfl

def ending (w : ω) : Except (Halt WorkerError) Poll → Option (Except (Halt WorkerError) WorkerReport)
  | .ok (.done _) => some ((Worker.report w).mapError .fault)
  | .ok _ => none
  | .error e => some (.error e)

def failed (s : Station ω) : Bool :=
  s.ended.any fun answer => !answer.isOk

def step (shutdown : Bool) (s : Station ω) (abort : Bool) (card : κ) : Station ω × Bool × κ :=
  if s.ended.isSome then (s, abort, card)
  else
    let (answer, w, card) := Polled.pollAt [shutdown, abort] s.worker card
    let s := { worker := w, ended := ending w answer }
    (s, abort || failed s, card)

/-- Polls each worker once, in order. Workers that take turns stop at the first that fails; workers
on threads of their own are polled whatever happens to the others. -/
def sweepStations (schedule : Schedule) (shutdown : Bool) :
    List (Station ω) → Bool → κ → List (Station ω) × Bool × κ
  | [], abort, card => ([], abort, card)
  | s :: rest, abort, card =>
    if schedule = .roundRobin && abort then (s :: rest, abort, card)
    else
      let (s, abort, card) := step shutdown s abort card
      let (rest, abort, card) := sweepStations schedule shutdown rest abort card
      (s :: rest, abort, card)

def sweep (schedule : Schedule) (shutdown : Bool) (f : Floor ω κ) : Floor ω κ :=
  let (stations, abort, card) := sweepStations schedule shutdown f.stations f.abort f.card
  { stations, abort, card }

/-- Whether nothing is polled any more. Threads end one by one; taking turns ends with the first
failure. -/
def isOver (schedule : Schedule) (f : Floor ω κ) : Bool :=
  f.stations.all (·.ended.isSome) || schedule = .roundRobin && f.abort

def sweeps (schedule : Schedule) (shutdown : Bool) : Nat → η → Floor ω κ → η × Floor ω κ
  | 0, h, f => (h, f)
  | fuel + 1, h, f =>
    if isOver schedule f then (h, f)
    else
      let (h, card) := Ground.onCard (Hardware.act h) f.card
      sweeps schedule shutdown fuel h (sweep schedule shutdown { f with card })

/-- A fault of a worker on a thread of its own is an error of the run; on the caller's thread it is
a fault of the run. -/
def failure (schedule : Schedule) (s : Station ω) : Option (Halt RunError) :=
  match s.ended with
  | some (.error (.fault e)) =>
    match schedule with
    | .threadPerQueue => some (.refused (.workerFault (Worker.queue s.worker).id))
    | .roundRobin => some (.fault e)
  | some (.error e) => some (e.map .worker)
  | _ => none

/-- The reports in queue order, or the failure of the first worker that failed. -/
def outcome (schedule : Schedule) (f : Floor ω κ) : Except (Halt RunError) (List WorkerReport) :=
  match f.stations.findSome? (failure schedule) with
  | some e => .error e
  | none =>
    f.stations.mapM fun s =>
      match s.ended with
      | some (.ok report) => .ok report
      | _ => .error .stuck

/-- Sweeps after which every worker is done or can only idle. -/
def sweepsLeft (ws : List ω) : Nat :=
  (ws.map Worker.pollsLeft).foldl max 0 + 2

def run (schedule : Schedule) (shutdown : Bool) (ws : List ω) (h : η) (card : κ) :
    Except (Halt RunError) (List WorkerReport) × List ω × η × κ :=
  let stations := ws.map fun worker => { worker }
  let (h, f) := sweeps schedule shutdown (sweepsLeft ws) h { stations, card }
  (outcome schedule f, f.stations.map (·.worker), h, f.card)

end Drive

end DmaBurst
