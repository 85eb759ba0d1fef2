import Dataflow.Analysis.Visit
import Dataflow.Report.Basic

/-!
# Faint registers

A register is faint where its value can only ever flow into registers that are
faint themselves. What is solved for is the opposite, strong liveness: a move or
a binary operation makes its operands live only if its result is live
afterwards, every other quad always does. In the end each fact is turned into
its complement.
-/

namespace Dataflow.Faintness

/-- Whether the operands of a quad matter, given what is live after it. -/
def matters (q : Quad) (live : OrdSet Register) : Bool :=
  match q.opcode with
  | .move => q.defs.any (· ∈ live)
  | .binary => q.defs.any (· ∈ live)
  | _ => true

def transfer (q : Quad) (live : OrdSet Register) : OrdSet Register :=
  let rest := live.eraseAll q.defs
  if matters q live then rest.insertAll q.uses else rest

def traits : Traits := ⟨"faintness", .backward, .union⟩

def problem (g : Graph) : Problem Register where
  toTraits := traits
  domain := g.registers
  atSource := ∅
  atTarget := ∅
  transfer := transfer

/-- What the analysis holds between visits. -/
structure State where
  domain : OrdSet Register
  /-- The faint registers. -/
  facts : FactMap (OrdSet Register)
  /-- The strongly live registers. -/
  live : Option (FactMap (OrdSet Register))
  report : Option FactReport

def State.fresh : State := ⟨∅, .empty, none, none⟩

/-- Turns each fact into what the domain has besides. -/
def complement (domain : OrdSet Register) (t : FactMap (OrdSet Register)) :
    FactMap (OrdSet Register) :=
  t.map domain.diff

def visit (s : State) (g : Graph) : Visit State :=
  let domain := g.registers
  Visit.solve s g [] (problem g) fun sol =>
    let faint := complement domain sol.facts
    (⟨domain, faint, some sol.facts, some (.ofTable g.name faint)⟩,
      [.complemented g.name domain.size])

end Dataflow.Faintness
