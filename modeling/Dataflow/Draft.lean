import Dataflow.Graph.Basic

/-!
# Drafts

A graph in the making. Commands number quads from 1 and blocks from 2 in the
order in which they are given. A command that makes no sense is noted and
skipped as far as it must be; `finish` adds what is wrong with the shape of the
whole and hands out the graph only if nothing is.
-/

namespace Dataflow

/-- One step in the making of a graph. -/
inductive Command where
  | param (r : Register)
  | block
  | push (b : BlockId) (i : Instr)
  | edge (a b : BlockId)

/-- A graph in the making, with the mistakes made so far. -/
structure Draft where
  graph : Graph
  defects : List Defect

namespace Draft

/-- A draft of a method that so far has its two sentinels. -/
def new (name : String) : Draft := ⟨.new ⟨name, []⟩, []⟩

def param (d : Draft) (r : Register) : Draft :=
  let m := d.graph.method
  { d with graph.method := { m with params := m.params ++ [r] } }

/-- Adds an empty block. -/
def block (d : Draft) : Except Fault (BlockId × Draft) := do
  let (b, g) ← d.graph.freshBlock
  return (b, { d with graph := g })

/-- What is wrong with pushing a quad into a block. -/
def pushDefects (d : Draft) (q : QuadId) (b : BlockId) : List Defect :=
  (if b.isSentinel then [.pushedIntoSentinel q b] else []) ++
    (if d.graph.blocks.contains b then [] else [.pushedIntoUnknown q b])

/-- Adds a quad at the end of a block, under the next number. The number is used
up even when the block is not there. -/
def push (d : Draft) (b : BlockId) (i : Instr) :
    Except Fault (QuadId × Draft) :=
  let q : QuadId := ⟨d.graph.nextQuad⟩
  if d.graph.nextQuad.toNat + 1 < UInt32.size then
    .ok (q, {
      graph := { d.graph with
        blocks := d.graph.blocks.modify b (·.push ⟨q, i⟩)
        nextQuad := d.graph.nextQuad + 1 }
      defects := d.defects ++ d.pushDefects q b })
  else .error .overflow

/-- Adds an edge between two blocks. -/
def edge (d : Draft) (a b : BlockId) : Draft :=
  let g := d.graph
  if g.blocks.contains a && g.blocks.contains b then
    { d with
      graph.blocks :=
        (g.blocks.modify a (·.withSucc b)).modify b (·.withPred a) }
  else { d with defects := d.defects ++ [.edgeToUnknown a b] }

/-- Carries out one command. -/
def apply (d : Draft) : Command → Except Fault Draft
  | .param r => .ok (d.param r)
  | .block => Prod.snd <$> d.block
  | .push b i => Prod.snd <$> d.push b i
  | .edge a b => .ok (d.edge a b)

/-- What is wrong with the edges of the sentinels. -/
def sentinelDefects (g : Graph) : List Defect :=
  let entry := (g.block? .entry).getD (.new .entry)
  let exit := (g.block? .exit).getD (.new .exit)
  (if entry.succs.isEmpty then [.entryWithoutSuccessor] else []) ++
    (if entry.preds.isEmpty then [] else [.entryWithPredecessor]) ++
    (if exit.succs.isEmpty then [] else [.exitWithSuccessor])

/-- What is wrong with one quad of a block; `last` says whether it is the last
one. -/
def quadDefects (b : Block) (last : Bool) (q : Quad) : List Defect :=
  (if q.transfersControl && !last then [.transferNotLast q.id b.id] else []) ++
    match q.target? with
    | some t => if t ∈ b.succs then [] else [.targetNotSuccessor q.id t b.id]
    | none => []

/-- What is wrong with the quads of a block. -/
def quadsDefects (b : Block) : List Quad → List Defect
  | [] => []
  | q :: rest => quadDefects b rest.isEmpty q ++ quadsDefects b rest

/-- What is wrong with the shape of a graph. -/
def shapeDefects (g : Graph) : List Defect :=
  sentinelDefects g ++ g.blocks.values.flatMap fun b => quadsDefects b b.quads

/-- The finished graph, if there is nothing wrong with it. -/
def finish (d : Draft) : Except Error Graph :=
  match d.defects ++ shapeDefects d.graph with
  | [] => .ok d.graph
  | defects => .error (.malformed defects)

/-- Carries out a list of commands. -/
def run (d : Draft) (script : List Command) : Except Fault Draft :=
  script.foldlM apply d

end Draft

/-- The graph that a script makes. -/
def Graph.build (name : String) (script : List Command) :
    Except Error Graph := do
  let d ← (Draft.new name).run script
  d.finish

end Dataflow
