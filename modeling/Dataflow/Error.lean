import Dataflow.Quad.Basic

/-!
# What can go wrong

Three kinds of trouble. A `Defect` is a mistake in how a graph was put together;
all of a draft's defects are reported at once. An `Error` is an answer that a
caller can act on. A `Fault` is a broken promise: an operation was used on
something it was never meant for, and there is no sensible way on.
-/

namespace Dataflow

/-- A mistake in the making of a graph. -/
inductive Defect where
  | pushedIntoSentinel (quad : QuadId) (block : BlockId)
  | pushedIntoUnknown (quad : QuadId) (block : BlockId)
  | edgeToUnknown (source target : BlockId)
  | entryWithoutSuccessor
  | entryWithPredecessor
  | exitWithSuccessor
  | transferNotLast (quad : QuadId) (block : BlockId)
  | targetNotSuccessor (quad : QuadId) (target block : BlockId)
deriving DecidableEq

/-- A broken promise. -/
inductive Fault where
  /-- No number is left to hand out. -/
  | overflow
  /-- A fact was asked for of a quad that has no facts. -/
  | noSlot (quad : QuadId)
  /-- A fact of an end of the method was asked for before there was one. -/
  | noFacts
  /-- A graph without one of its sentinels. -/
  | noSentinel (block : BlockId)
  /-- Facts still moved after as many sweeps as lawful facts can take. -/
  | unsettled (sweeps : Nat)
deriving DecidableEq

/-- Why an operation has no result. -/
inductive Error where
  | malformed (defects : List Defect)
  /-- Null checks are wanted, and the method has none to model them on. -/
  | noTemplate (method : String)
  | unknownQuad (quad : QuadId)
  | unknownBlock (block : BlockId)
  | fault (f : Fault)
deriving DecidableEq

def Defect.message : Defect → String
  | .pushedIntoSentinel q b =>
    "quad " ++ q.text ++ " pushed into sentinel block " ++ b.text
  | .pushedIntoUnknown q b =>
    "quad " ++ q.text ++ " pushed into unknown block " ++ b.text
  | .edgeToUnknown a b =>
    "edge " ++ a.text ++ " -> " ++ b.text ++ " names an unknown block"
  | .entryWithoutSuccessor => "entry has no successor"
  | .entryWithPredecessor => "entry has a predecessor"
  | .exitWithSuccessor => "exit has a successor"
  | .transferNotLast q b =>
    q.text ++ " transfers control but is not last in " ++ b.text
  | .targetNotSuccessor q t b =>
    q.text ++ " branches to " ++ t.text ++
      " which is not a successor of " ++ b.text

def Fault.message : Fault → String
  | .overflow => "attempt to add with overflow"
  | .noSlot q => "no fact slot for quad " ++ q.text
  | .noFacts => "fact table not allocated"
  | .noSentinel _ => "no entry found for key"
  | .unsettled n =>
    "facts still moving after " ++ Text.Decimal.text n ++ " sweeps"

def Error.message : Error → String
  | .malformed ds =>
    "Malformed CFG: " ++ "; ".intercalate (ds.map Defect.message)
  | .noTemplate m => "No null-check quad to use as a template in method " ++ m
  | .unknownQuad q => "Unknown quad: " ++ q.text
  | .unknownBlock b => "Unknown block: " ++ b.text
  | .fault f => f.message

/-- A fault is one of the errors. -/
instance : MonadLift (Except Fault) (Except Error) where
  monadLift
    | .ok a => .ok a
    | .error f => .error (.fault f)

end Dataflow
