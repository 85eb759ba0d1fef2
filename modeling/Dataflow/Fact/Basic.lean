import Dataflow.Fact.Meet

/-!
# Facts

A fact that carries the lattice it lives in: its elements, the domain, and how
it meets others. Elements outside the domain are allowed; taking the complement
drops them. Two facts are the same when their elements are.
-/

namespace Dataflow

/-- A set with the lattice it lives in. -/
structure Fact (α : Type) [Element α] where
  elems : OrdSet α
  domain : OrdSet α
  lattice : Meet

namespace Fact

variable {α : Type} [Element α]

def empty (domain : OrdSet α) (lattice : Meet) : Fact α := ⟨∅, domain, lattice⟩

def full (domain : OrdSet α) (lattice : Meet) : Fact α :=
  ⟨domain, domain, lattice⟩

def top (domain : OrdSet α) (lattice : Meet) : Fact α :=
  ⟨lattice.top domain, domain, lattice⟩

def bottom (domain : OrdSet α) (lattice : Meet) : Fact α :=
  ⟨lattice.bottom domain, domain, lattice⟩

/-- The same lattice with other elements. -/
def withElems (f : Fact α) (s : OrdSet α) : Fact α := { f with elems := s }

def insert (f : Fact α) (a : α) : Fact α := f.withElems (f.elems.insert a)

def erase (f : Fact α) (a : α) : Fact α := f.withElems (f.elems.erase a)

def eraseAll (f : Fact α) (l : List α) : Fact α :=
  f.withElems (f.elems.eraseAll l)

def toTop (f : Fact α) : Fact α := f.withElems (f.lattice.top f.domain)

def toBottom (f : Fact α) : Fact α := f.withElems (f.lattice.bottom f.domain)

/-- What the domain has and the fact has not. -/
def complement (f : Fact α) : Fact α := f.withElems (f.domain.diff f.elems)

/-- Meets another fact, in the lattice of this one. -/
def meet (f g : Fact α) : Fact α := f.withElems (f.lattice.meet f.elems g.elems)

/-- Whether two facts have the same elements. -/
def same [DecidableEq α] (f g : Fact α) : Bool := f.elems = g.elems

/-- Whether this fact is the other or lies lower, in the lattice of this one. -/
def below [DecidableEq α] (f g : Fact α) : Bool :=
  f.lattice.below f.elems g.elems

def text (f : Fact α) : String := f.elems.text

end Fact

/-- A fact is written as the list of its elements. -/
def Fact.json {α : Type} [Element α] [JsonForm α] (f : Fact α) : Json :=
  JsonForm.encode f.elems.toList

end Dataflow
