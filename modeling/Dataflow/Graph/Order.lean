import Dataflow.Graph.Basic
import Dataflow.Graph.Search
import Dataflow.OrdSet

/-!
# Program order

Blocks stand in the reversed postorder of a depth-first search from the entry,
so a block comes before those it leads to, loops apart. A block that the entry
does not reach has no place in it. A successor that is not in the graph counts
as a block without successors.
-/

namespace Dataflow.Graph

/-- The successors of a block; none for a block that is not there. -/
def succs (g : Graph) (b : BlockId) : List BlockId :=
  match g.block? b with
  | some blk => blk.succs
  | none => []

/-- The number of edges, as the successor lists give it. -/
def succCount (g : Graph) : Nat := (g.blocks.values.flatMap Block.succs).length

/-- The number of edges, as the predecessor lists give it. -/
def predCount (g : Graph) : Nat := (g.blocks.values.flatMap Block.preds).length

/-- The blocks that the entry reaches, in program order. -/
def programOrder (g : Graph) : List BlockId :=
  Search.reversePostorder g.succs g.succCount .entry

/-- The blocks of the program order that are there. -/
def orderedBlocks (g : Graph) : List Block := g.programOrder.filterMap g.block?

/-- The quads of reachable blocks, in program order. -/
def quads (g : Graph) : List Quad := g.orderedBlocks.flatMap Block.quads

/-- The parameters, and every register that a reachable quad defines or uses. -/
def registers (g : Graph) : OrdSet Register :=
  g.quads.foldl (fun s q => (s.insertAll q.defs).insertAll q.uses)
    (OrdSet.ofList g.params)

end Dataflow.Graph
