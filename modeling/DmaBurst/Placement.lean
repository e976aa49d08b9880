namespace DmaBurst

/-- How the cores of a run were chosen: one physical core a worker, cores shared between siblings,
none at all, or as listed by the user. -/
inductive PlacementStrategy where
  | dedicated
  | smtShare
  | noPin
  | manual
  deriving DecidableEq, Repr

def PlacementStrategy.text : PlacementStrategy → String
  | .dedicated => "dedicated"
  | .smtShare => "smt-share"
  | .noPin => "no-pin"
  | .manual => "manual"

/-- The core of every worker; a worker without one is left to the scheduler. -/
structure Placement where
  cores : List (Option Nat)
  strategy : PlacementStrategy
  deriving DecidableEq, Repr

namespace Placement

def unpinned (workers : Nat) : Placement :=
  ⟨List.replicate workers none, .noPin⟩

def coreFor (index : Nat) (p : Placement) : Option Nat :=
  p.cores[index]?.join

end Placement

structure CpuTopology where
  physicalCores : Nat
  availableCores : List Nat
  deriving DecidableEq, Repr

namespace CpuTopology

def strategyFor (workers : Nat) (t : CpuTopology) : PlacementStrategy :=
  if workers ≤ min t.physicalCores t.availableCores.length then .dedicated
  else if workers ≤ t.availableCores.length then .smtShare
  else .noPin

/-- Worker `i` gets the `i`-th available core, or no worker is pinned. -/
def place (workers : Nat) (t : CpuTopology) : Placement :=
  match t.strategyFor workers with
  | .noPin => .unpinned workers
  | strategy => ⟨(t.availableCores.take workers).map some, strategy⟩

end CpuTopology

inductive CpuPolicy where
  | auto
  | manual (cores : List Nat)
  | disabled
  deriving DecidableEq, Repr

namespace CpuPolicy

def resolve (topology : CpuTopology) (workers : Nat) : CpuPolicy → Placement
  | .auto => topology.place workers
  | .manual cores =>
    let cores := cores.toArray
    ⟨(List.range workers).map (cores[·]?), .manual⟩
  | .disabled => .unpinned workers

end CpuPolicy

end DmaBurst
