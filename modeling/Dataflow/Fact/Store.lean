import Dataflow.Fact.Basic
import Dataflow.Fact.Map

/-!
# Storing facts that carry their lattice

Where there is a fact already, storing another takes over its elements and keeps
the lattice of the one that is there. Only an end of the method that has no fact
yet takes the new one whole.
-/

namespace Dataflow.FactMap

variable {α : Type} [Element α]

/-- Stores a fact of a quad, which must have a slot. -/
def store (t : FactMap (Fact α)) (side : Side) (q : QuadId) (f : Fact α) :
    Except Fault (FactMap (Fact α)) :=
  t.update side q fun old => old.withElems f.elems

/-- Stores the fact at an end of the method. -/
def storeTerminal (t : FactMap (Fact α)) (e : Terminal) (f : Fact α) :
    FactMap (Fact α) :=
  match t.terminal? e with
  | some old => t.setTerminal e (old.withElems f.elems)
  | none => t.setTerminal e f

/-- Meets the fact of a quad with another; a quad without a slot changes
nothing. -/
def meetAt (t : FactMap (Fact α)) (side : Side) (q : QuadId) (f : Fact α) :
    FactMap (Fact α) :=
  t.modify side q fun old => old.meet f

end Dataflow.FactMap
