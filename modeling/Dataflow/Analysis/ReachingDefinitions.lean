import Dataflow.Analysis.Visit
import Dataflow.Report.Basic

/-!
# Reaching definitions

Which definitions may still be in force at each point. Facts flow forward and
are joined by union. A quad that defines a register puts an end to every
definition of it and starts its own.
-/

namespace Dataflow.ReachingDefinitions

/-- The quads that define each register, registers in order of their first
definition. -/
abbrev Definitions := KeyedList Register (OrdSet QuadId)

/-- The quads that define a register; a register that nobody defines has
none. -/
def definitionsOf (m : Definitions) (r : Register) : OrdSet QuadId :=
  (m.get? r).getD ∅

/-- Notes that a quad defines a register. -/
def note (q : QuadId) (m : Definitions) (r : Register) : Definitions :=
  m.insert r ((definitionsOf m r).insert q)

/-- All definitions of the reachable quads. -/
def definitions (g : Graph) : Definitions :=
  g.quads.foldl (fun m q => q.defs.foldl (note q.id) m) ∅

/-- The quads that define anything. -/
def domain (g : Graph) : OrdSet QuadId :=
  OrdSet.ofList ((g.quads.filter fun q => !q.defs.isEmpty).map Quad.id)

def transfer (m : Definitions) (q : Quad) (s : OrdSet QuadId) : OrdSet QuadId :=
  let rest := q.defs.foldl (fun s r => s.diff (definitionsOf m r)) s
  if q.defs.isEmpty then rest else rest.insert q.id

def traits : Traits := ⟨"reaching-definitions", .forward, .union⟩

def problem (g : Graph) : Problem QuadId :=
  let m := definitions g
  { traits with
    domain := domain g
    atSource := ∅
    atTarget := ∅
    transfer := transfer m }

/-- What the analysis holds between visits. -/
structure State where
  domain : OrdSet QuadId
  definitions : Definitions
  facts : FactMap (OrdSet QuadId)
  report : Option FactReport

def State.fresh : State := ⟨∅, ∅, .empty, none⟩

def visit (s : State) (g : Graph) : Visit State :=
  let m := definitions g
  Visit.solve s g [.definitionsFound g.name (domain g).size m.size]
    (problem g) fun sol =>
      (⟨domain g, m, sol.facts, some (.ofTable g.name sol.facts)⟩, [])

end Dataflow.ReachingDefinitions
