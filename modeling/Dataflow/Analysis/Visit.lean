import Dataflow.Solver.Trace

/-!
# Visits

An analysis can be kept and shown one graph after another. A visit takes what
the analysis holds and a graph, and answers what it holds then, the graph, which
may have been changed, what happened, and how it ended. A visit that ends in an
error leaves what the analysis held.
-/

namespace Dataflow

/-- The outcome of showing a graph to an analysis that holds a `σ`. -/
structure Visit (σ : Type) where
  state : σ
  graph : Graph
  events : List Event
  result : Except Error Stats

namespace Visit

variable {σ α : Type} [DecidableEq α] [Element α]

/-- Solves a problem for an analysis that held `old`; `prepared` tells what came
before, and `conclude` makes of the solution what the analysis holds afterwards,
with what there is to tell of it. -/
def solve (old : σ) (g : Graph) (prepared : List Event) (p : Problem α)
    (conclude : Solution α → σ × List Event) : Visit σ :=
  match p.run g with
  | (events, .error f) => ⟨old, g, prepared ++ events, .error (.fault f)⟩
  | (events, .ok s) =>
    let (state, closing) := conclude s
    ⟨state, g, prepared ++ events ++ closing, .ok s.stats⟩

end Visit

end Dataflow
