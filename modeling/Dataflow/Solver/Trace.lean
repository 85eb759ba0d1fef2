import Dataflow.Event
import Dataflow.Solver.Sweep

/-!
# What a solver tells of its run

The events of a run follow from its sweeps: each names the quads that it moved
and ends with its count of changes.
-/

namespace Dataflow

/-- How much work a run was. -/
structure Stats where
  /-- Sweeps, the last one, which moved nothing, included. -/
  sweeps : Nat
  quads : Nat
deriving DecidableEq

section

variable {α : Type} [Element α]

/-- The events of one sweep. -/
def Pass.events (p : Pass α) (d : Direction) (sweep : Nat) : List Event :=
  p.moved.map (fun q => .moved q sweep) ++ [.swept d sweep p.changes]

/-- The events of sweeps, the first of which has number `sweep`. -/
def Pass.allEvents (d : Direction) (sweep : Nat) : List (Pass α) → List Event
  | [] => []
  | p :: rest => p.events d sweep ++ allEvents d (sweep + 1) rest

end

namespace Solution

variable {α : Type} [Element α]

def stats (s : Solution α) : Stats := ⟨s.passes.length, s.quads⟩

/-- How often the transfer function was applied: once per quad and sweep. -/
def transfers (s : Solution α) : Nat := s.passes.length * s.quads

end Solution

namespace Problem

variable {α : Type} [DecidableEq α] [Element α]

/-- Solves a problem and tells what happened. -/
def run (p : Problem α) (g : Graph) : List Event × Except Fault (Solution α) :=
  match g.route p.direction with
  | .error f => ([], .error f)
  | .ok r =>
    let opening := Event.solving p.name g.name p.direction r.stations.length
    match p.solveAlong g r with
    | .error f => ([opening], .error f)
    | .ok s =>
      (opening :: (Pass.allEvents p.direction 1 s.passes ++
        [.settled p.name g.name s.passes.length]), .ok s)

end Problem

end Dataflow
