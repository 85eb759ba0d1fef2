import Dataflow.Solver.Trace

/-!
# Gen/kill problems

A problem given by two lists of pairs: what each quad removes from a fact, and
what it then adds. Of two pairs for one quad the later counts. A quad may add
elements outside the domain.
-/

namespace Dataflow.GenKill

/-- The registers listed for a quad. -/
def listed (pairs : List (QuadId × List Register)) (q : QuadId) :
    List Register :=
  match (pairs.filter fun p => p.1 = q).getLast? with
  | some p => p.2
  | none => []

/-- A gen/kill problem. -/
structure Spec where
  direction : Direction
  meet : Meet
  domain : OrdSet Register
  gen : List (QuadId × List Register)
  kill : List (QuadId × List Register)
  /-- The facts at the ends of the method; the top where none is given. -/
  entry : Option (OrdSet Register)
  exit : Option (OrdSet Register)

namespace Spec

def transfer (s : Spec) (q : Quad) (f : OrdSet Register) : OrdSet Register :=
  (f.eraseAll (listed s.kill q.id)).insertAll (listed s.gen q.id)

/-- The fact that an end of the method starts with. -/
def terminal (s : Spec) (e : Terminal) : OrdSet Register :=
  (match e with
    | .entry => s.entry
    | .exit => s.exit).getD (s.meet.top s.domain)

def problem (s : Spec) : Problem Register where
  name := "genkill"
  direction := s.direction
  meet := s.meet
  domain := s.domain
  atSource := s.terminal s.direction.source
  atTarget := s.terminal s.direction.target
  transfer := s.transfer

end Spec

end Dataflow.GenKill
