import Dataflow.Json.Form
import Dataflow.OrdSet

/-!
# Two lattices of sets

Facts about one method are subsets of one domain, and there are two ways to
order them. When facts are joined by union, as for what *may* hold, the empty
set is the top and larger sets lie lower. When they are joined by intersection,
as for what *must* hold, the whole domain is the top and smaller sets lie lower.
In both, meeting two facts goes down.
-/

namespace Dataflow

/-- How facts that arrive on several ways are joined. -/
inductive Meet where
  | union
  | intersection
deriving DecidableEq

instance : Named Meet where
  all := [.union, .intersection]
  name
    | .union => "Union"
    | .intersection => "Intersection"

namespace Meet

variable {α : Type} [Element α]

/-- The fact that says least: neutral when facts meet. -/
def top : Meet → OrdSet α → OrdSet α
  | .union, _ => ∅
  | .intersection, domain => domain

/-- The fact below all facts over the domain. -/
def bottom : Meet → OrdSet α → OrdSet α
  | .union, domain => domain
  | .intersection, _ => ∅

/-- The greatest fact below two facts. -/
def meet : Meet → OrdSet α → OrdSet α → OrdSet α
  | .union, s, t => s.union t
  | .intersection, s, t => s.inter t

/-- Whether the first fact is the second or lies lower. -/
def below [DecidableEq α] : Meet → OrdSet α → OrdSet α → Bool
  | .union, s, t => t.subset s
  | .intersection, s, t => s.subset t

end Meet

end Dataflow
