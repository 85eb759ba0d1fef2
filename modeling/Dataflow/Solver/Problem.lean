import Dataflow.Fact.Meet
import Dataflow.Fact.Map
import Dataflow.Graph.Neighbours

/-!
# Dataflow problems

What an analysis asks of the solver, for either direction. Facts flow from one
end of the method, the source, along the neighbours of each quad to the other
end, the target. Where several ways join, facts meet; at a quad the transfer
function turns what arrives into what leaves.
-/

namespace Dataflow

/-- Which way facts flow. -/
inductive Direction where
  | forward
  | backward
deriving DecidableEq

namespace Direction

/-- The end of the method where facts come from. -/
def source : Direction → Terminal
  | .forward => .entry
  | .backward => .exit

/-- The end of the method where facts go to. -/
def target : Direction → Terminal
  | .forward => .exit
  | .backward => .entry

/-- The side of a quad where facts arrive. -/
def arrival : Direction → Side
  | .forward => .before
  | .backward => .after

/-- The side of a quad where facts leave. -/
def departure : Direction → Side
  | .forward => .after
  | .backward => .before

def isForward : Direction → Bool
  | .forward => true
  | .backward => false

end Direction

/-- What is fixed of an analysis, whatever the method. -/
structure Traits where
  name : String
  direction : Direction
  meet : Meet

/-- An analysis of one method. -/
structure Problem (α : Type) [Element α] extends Traits where
  domain : OrdSet α
  /-- The fact at the source, which the solver never changes. -/
  atSource : OrdSet α
  /-- The fact that stands at the target before the first sweep. -/
  atTarget : OrdSet α
  transfer : Quad → OrdSet α → OrdSet α

namespace Problem

variable {α : Type} [Element α]

/-- The fact that every quad starts with. -/
def top (p : Problem α) : OrdSet α := p.meet.top p.domain

/-- Every element that a fact can come to hold: those of the domain and of the
ends, and what the quads make of them. -/
def support (p : Problem α) (quads : List Quad) : OrdSet α :=
  let known := (p.domain.union p.atSource).union p.atTarget
  quads.foldl (fun s q => s.union (p.transfer q known)) known

/-- The facts before the first sweep. -/
def initial (p : Problem α) (g : Graph) : FactMap (OrdSet α) :=
  ((FactMap.uniform g p.top).setTerminal p.direction.source
    p.atSource).setTerminal p.direction.target p.atTarget

end Problem

/-- A quad and the neighbours that its facts arrive from. -/
structure Station where
  quad : Quad
  origins : List Neighbour

/-- A method laid out along the flow of facts. -/
structure Route where
  stations : List Station
  /-- Where the facts at the target arrive from. -/
  final : List Neighbour

namespace Graph

/-- The quads of a graph in the order in which a sweep takes them, with their
origins. -/
def route (g : Graph) (d : Direction) : Except Fault Route := do
  let e ← g.quadGraph
  match d with
  | .forward =>
    return ⟨g.quads.map fun q => ⟨q, e.preds q.id⟩, e.exitPreds⟩
  | .backward =>
    return ⟨g.quads.reverse.map fun q => ⟨q, e.succs q.id⟩, e.entrySuccs⟩

end Graph

end Dataflow
