import Dataflow.Analysis.Visit
import Dataflow.Graph.CheckInsertion
import Dataflow.Report.Basic

/-!
# Registers known not to be null

Facts flow forward and are joined by intersection. Parameters may be null at the
start, other registers are not. A definition makes its register doubtful again,
and a null check settles it. A null check of a register that is already known
not to be null is redundant; every sweep marks such checks anew, because a fact
can only be trusted once it no longer moves.

On request, explicit null checks are inserted into the graph before it is
analysed.
-/

namespace Dataflow.NonNull

/-- What is still known after a quad's definitions. -/
def surviving (q : Quad) (s : OrdSet Register) : OrdSet Register :=
  s.eraseAll q.defs

def transfer (q : Quad) (s : OrdSet Register) : OrdSet Register :=
  match q.checked? with
  | some r => (surviving q s).insert r
  | none => surviving q s

def traits : Traits := ⟨"null-check", .forward, .intersection⟩

def problem (g : Graph) : Problem Register where
  toTraits := traits
  domain := g.registers
  atSource := g.registers.eraseAll g.params
  atTarget := g.registers
  transfer := transfer

/-- Takes note of a quad that a sweep has come to: a check of a register that is
already known is marked, and one that is needed after all loses its mark. -/
def mark (marks : OrdSet QuadId) (a : Arrival Register) : OrdSet QuadId :=
  match a.quad.checked? with
  | some r =>
    if r ∈ surviving a.quad a.fact then marks.insert a.quad.id
    else marks.erase a.quad.id
  | none => marks

/-- The null checks that are not needed, as the sweeps have left their marks. -/
def redundant (passes : List (Pass Register)) : OrdSet QuadId :=
  (passes.flatMap Pass.arrivals).foldl mark ∅

/-- What the analysis holds between visits. -/
structure State where
  /-- Whether to insert explicit checks first. -/
  inserting : Bool
  domain : OrdSet Register
  facts : FactMap (OrdSet Register)
  redundant : OrdSet QuadId
  /-- What the insertion before the last solving did. -/
  inserted : Option CheckStats
  report : Option CheckReport

def State.fresh (inserting : Bool) : State :=
  ⟨inserting, ∅, .empty, ∅, none, none⟩

/-- Analyses a graph as it is; `inserted` and `earlier` tell of an insertion
before. -/
def analyse (s : State) (g : Graph) (inserted : Option CheckStats)
    (earlier : List Event) : Visit State :=
  let domain := g.registers
  let prepared := Event.nonNullPrepared g.name domain.size g.params.length
  Visit.solve s g (earlier ++ [prepared]) (problem g) fun sol =>
    let redundant := redundant sol.passes
    ({ s with
        domain, facts := sol.facts, redundant, inserted
        report := some ⟨g.name, redundant.toList⟩ }, [])

def visit (s : State) (g : Graph) : Visit State :=
  if s.inserting then
    let i := g.insertChecks
    match i.result with
    | .error e => ⟨s, i.graph, i.events, .error e⟩
    | .ok stats => analyse s i.graph (some stats) i.events
  else analyse s g none []

end Dataflow.NonNull
