import Dataflow.Quad.Text
import Dataflow.Solver.Problem

/-!
# Events

What happened during a run, as a log tells it: a level, a message and named
values on one line.
-/

namespace Dataflow

/-- How much an event matters. -/
inductive Level where
  | debug
  | trace
deriving DecidableEq

/-- Something that happened during a run. -/
inductive Event where
  | solving (analysis method : String) (direction : Direction) (quads : Nat)
  /-- Facts of a quad moved. -/
  | moved (quad : Quad) (sweep : Nat)
  | swept (direction : Direction) (sweep changes : Nat)
  | settled (analysis method : String) (sweeps : Nat)
  | definitionsFound (method : String) (definitions registers : Nat)
  | complemented (method : String) (registers : Nat)
  | nonNullPrepared (method : String) (registers params : Nat)
  /-- A comparison with null has no edge for a check. -/
  | testSkipped (quad : Quad) (block : BlockId)
  | checkInserted (branch check : QuadId) (register : Register)
    (block : BlockId)
  | checksInserted (method : String) (sites inserted skipped : Nat)

namespace Event

def level : Event → Level
  | .moved .. => .trace
  | _ => .debug

def message : Event → String
  | .solving .. => "solving"
  | .moved .. => "facts changed"
  | .swept .forward _ _ => "forward sweep"
  | .swept .backward _ _ => "backward sweep"
  | .settled .. => "fixpoint reached"
  | .definitionsFound .. => "reaching definitions prepared"
  | .complemented .. => "complemented strong liveness"
  | .nonNullPrepared .. => "null-check analysis prepared"
  | .testSkipped .. => "skipping null comparison"
  | .checkInserted .. => "inserted null check"
  | .checksInserted .. => "materialized null checks"

/-- The named values of an event, in order. -/
def values : Event → List (String × String)
  | .solving analysis method direction quads =>
    [("analysis", analysis), ("method", method),
      ("forward", if direction.isForward then "true" else "false"),
      ("quads", Text.Decimal.text quads)]
  | .moved quad sweep =>
    [("quad", quad.text), ("sweep", Text.Decimal.text sweep)]
  | .swept _ sweep changes =>
    [("sweep", Text.Decimal.text sweep), ("changed", Text.Decimal.text changes)]
  | .settled analysis method sweeps =>
    [("analysis", analysis), ("method", method),
      ("sweeps", Text.Decimal.text sweeps)]
  | .definitionsFound method definitions registers =>
    [("method", method), ("definitions", Text.Decimal.text definitions),
      ("registers", Text.Decimal.text registers)]
  | .complemented method registers =>
    [("method", method), ("registers", Text.Decimal.text registers)]
  | .nonNullPrepared method registers params =>
    [("method", method), ("registers", Text.Decimal.text registers),
      ("params", Text.Decimal.text params)]
  | .testSkipped quad block => [("quad", quad.text), ("block", block.text)]
  | .checkInserted branch check register block =>
    [("branch", branch.text), ("check", check.text),
      ("register", register.name), ("block", block.text)]
  | .checksInserted method sites inserted skipped =>
    [("method", method), ("sites", Text.Decimal.text sites),
      ("inserted", Text.Decimal.text inserted),
      ("skipped", Text.Decimal.text skipped)]

/-- The line that a log shows. -/
def text (e : Event) : String :=
  let level := match e.level with
    | .debug => "DEBUG"
    | .trace => "TRACE"
  level ++ " " ++ e.message ++
    String.join (e.values.map fun v => " " ++ v.1 ++ "=" ++ v.2)

end Event

end Dataflow
