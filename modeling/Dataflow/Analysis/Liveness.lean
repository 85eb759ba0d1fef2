import Dataflow.Analysis.Visit
import Dataflow.Report.Basic

/-!
# Live registers

Which registers hold a value that may still be read. Facts flow backward and are
joined by union. Before a quad, what it uses is live, and what it defines is not
unless it also uses it.
-/

namespace Dataflow.Liveness

def transfer (q : Quad) (s : OrdSet Register) : OrdSet Register :=
  (s.eraseAll q.defs).insertAll q.uses

def traits : Traits := ⟨"liveness", .backward, .union⟩

def problem (g : Graph) : Problem Register where
  toTraits := traits
  domain := g.registers
  atSource := ∅
  atTarget := ∅
  transfer := transfer

/-- What the analysis holds between visits. -/
structure State where
  domain : OrdSet Register
  facts : FactMap (OrdSet Register)
  report : Option FactReport

def State.fresh : State := ⟨∅, .empty, none⟩

def visit (s : State) (g : Graph) : Visit State :=
  Visit.solve s g [] (problem g) fun sol =>
    (⟨g.registers, sol.facts, some (.ofTable g.name sol.facts)⟩, [])

end Dataflow.Liveness
