import Dataflow.Solver.Problem

/-!
# The full-sweep solver

A sweep takes the quads in flow order, and for each makes what arrives the meet
of what leaves its origins, and what leaves the transfer of what arrives. Facts
are changed in place, so a quad sees what the same sweep has already done before
it. After the quads the fact at the target is made anew. Sweeps go on until one
moves nothing.

Lawful facts move only downwards from the first sweep on, one element at a time
at worst, so their number bounds the number of sweeps. The loop runs with that
bound; running into it means that the transfer was not monotone, and it is
reported as a fault.
-/

namespace Dataflow

/-- A quad that a sweep took. -/
structure Arrival (α : Type) [Element α] where
  quad : Quad
  /-- What arrived at it. -/
  fact : OrdSet α
  /-- Whether its facts moved. -/
  moved : Bool

/-- What one sweep did. -/
structure Pass (α : Type) [Element α] where
  /-- The quads in sweep order. -/
  arrivals : List (Arrival α)
  /-- Whether the fact at the target moved. -/
  targetMoved : Bool

namespace Pass

variable {α : Type} [Element α]

/-- The quads whose facts moved, in sweep order. -/
def moved (p : Pass α) : List Quad :=
  (p.arrivals.filter Arrival.moved).map Arrival.quad

/-- How many facts moved, counting a quad once. -/
def changes (p : Pass α) : Nat :=
  p.moved.length + if p.targetMoved then 1 else 0

end Pass

/-- The facts that the solver ends with, and how it came to them. -/
structure Solution (α : Type) [Element α] where
  facts : FactMap (OrdSet α)
  /-- All sweeps, the last one, which moved nothing, included. -/
  passes : List (Pass α)
  quads : Nat

namespace Problem

variable {α : Type} [DecidableEq α] [Element α]

/-- The fact that leaves a neighbour; the end of the method sends out the fact
at the source. -/
def leaving (p : Problem α) (t : FactMap (OrdSet α)) :
    Neighbour → Except Fault (OrdSet α)
  | some q => t.get p.direction.departure q
  | none => t.terminal p.direction.source

/-- The meet of all that leaves some neighbours. -/
def arriving (p : Problem α) (t : FactMap (OrdSet α))
    (origins : List Neighbour) : Except Fault (OrdSet α) :=
  origins.foldlM (fun acc n => do return p.meet.meet acc (← p.leaving t n))
    p.top

/-- Brings the facts of one quad up to date. -/
def refresh (p : Problem α) (t : FactMap (OrdSet α)) (s : Station) :
    Except Fault (FactMap (OrdSet α) × Arrival α) := do
  let q := s.quad.id
  let arrived ← p.arriving t s.origins
  let oldArrived ← t.get p.direction.arrival q
  let t ← t.update p.direction.arrival q fun _ => arrived
  let left := p.transfer s.quad arrived
  let oldLeft ← t.get p.direction.departure q
  let t ← t.update p.direction.departure q fun _ => left
  return (t,
    ⟨s.quad, arrived, decide (arrived ≠ oldArrived) || decide (left ≠ oldLeft)⟩)

/-- Brings the facts of quads up to date one after the other. -/
def refreshAll (p : Problem α) (t : FactMap (OrdSet α)) :
    List Station → Except Fault (FactMap (OrdSet α) × List (Arrival α))
  | [] => return (t, [])
  | s :: rest => do
    let (t, arrival) ← p.refresh t s
    let (t, others) ← p.refreshAll t rest
    return (t, arrival :: others)

/-- One sweep over all quads and the target. -/
def sweep (p : Problem α) (r : Route) (t : FactMap (OrdSet α)) :
    Except Fault (FactMap (OrdSet α) × Pass α) := do
  let (t, arrivals) ← p.refreshAll t r.stations
  let arrived ← p.arriving t r.final
  let old ← t.terminal p.direction.target
  return (t.setTerminal p.direction.target arrived, ⟨arrivals, arrived ≠ old⟩)

/-- Sweeps until nothing moves, at most `limit` times. `done` sweeps came
before. -/
def settle (p : Problem α) (r : Route) (done : Nat) :
    Nat → FactMap (OrdSet α) → Except Fault (FactMap (OrdSet α) × List (Pass α))
  | 0, _ => .error (.unsettled done)
  | limit + 1, t => do
    let (t, pass) ← p.sweep r t
    if pass.changes = 0 then return (t, [pass])
    else
      let (t, passes) ← p.settle r (done + 1) limit t
      return (t, pass :: passes)

/-- How many sweeps lawful facts can take: the two facts of each quad and the
one at the target can move once per element, the first sweep may also set the
target right, and the last moves nothing. -/
def sweepLimit (p : Problem α) (quads : List Quad) : Nat :=
  (2 * quads.length + 1) * (p.support quads).size + 2

/-- Sweeps along a route until nothing moves. -/
def solveAlong (p : Problem α) (g : Graph) (r : Route) :
    Except Fault (Solution α) := do
  let quads := r.stations.map Station.quad
  let (facts, passes) ← p.settle r 0 (p.sweepLimit quads) (p.initial g)
  return { facts, passes, quads := quads.length }

/-- The facts of a method. -/
def solve (p : Problem α) (g : Graph) : Except Fault (Solution α) := do
  p.solveAlong g (← g.route p.direction)

end Problem

end Dataflow
