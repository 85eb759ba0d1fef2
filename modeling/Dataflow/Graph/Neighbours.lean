import Dataflow.Graph.Order

/-!
# Neighbouring quads

Facts flow from quad to quad. Inside a block the neighbours of a quad are the
quads beside it. At the end of a block they are the first quads of the blocks
that follow, and where such a block is empty, of the blocks that follow it in
turn; at the start the same holds backwards, among blocks that the entry
reaches. A walk that comes to the exit, or backwards to the entry, has found the
end of the method, which is written `none`.
-/

namespace Dataflow

/-- A quad, or the end of the method on that side. -/
abbrev Neighbour := Option QuadId

/-- The neighbours of one quad. -/
structure Link where
  quad : QuadId
  preds : List Neighbour
  succs : List Neighbour

/-- The quads of a graph with their neighbours, in program order. -/
structure QuadGraph where
  links : List Link
  /-- The quads that the method can end with; `none` when it can end without
  any. -/
  exitPreds : List Neighbour
  /-- The quads that the method can begin with; `none` when it can end without
  any. -/
  entrySuccs : List Neighbour

namespace QuadGraph

/-- The neighbours of a quad. Of two quads with one number the later one
counts. -/
def link? (e : QuadGraph) (q : QuadId) : Option Link :=
  (e.links.filter fun l => l.quad = q).getLast?

/-- Where control can come from just before a quad. -/
def preds (e : QuadGraph) (q : QuadId) : List Neighbour :=
  match e.link? q with
  | some l => l.preds
  | none => []

/-- Where control can go just after a quad. -/
def succs (e : QuadGraph) (q : QuadId) : List Neighbour :=
  match e.link? q with
  | some l => l.succs
  | none => []

end QuadGraph

namespace Graph

/-- What lies before the start of a block, looking at one block that precedes
it. -/
def lookBack (g : Graph) (reachable : List BlockId) (b : BlockId) :
    Search.Sight BlockId Neighbour :=
  if b ∉ reachable then .closed
  else if b = .entry then .shows none
  else
    match g.block? b with
    | none => .closed
    | some blk =>
      match blk.last? with
      | some q => .shows (some q.id)
      | none => .leadsTo blk.preds

/-- What lies behind the end of a block, looking at one block that follows
it. -/
def lookAhead (g : Graph) (reachable : List BlockId) (b : BlockId) :
    Search.Sight BlockId Neighbour :=
  if b ∉ reachable then .closed
  else if b = .exit then .shows none
  else
    match g.block? b with
    | none => .closed
    | some blk =>
      match blk.first? with
      | some q => .shows (some q.id)
      | none => .leadsTo blk.succs

/-- The last quads before the blocks of a list, through empty blocks. -/
def incoming (g : Graph) (reachable : List BlockId) (blocks : List BlockId) :
    List Neighbour :=
  Search.lookThrough (g.lookBack reachable) g.predCount blocks

/-- The first quads behind the blocks of a list, through empty blocks. -/
def outgoing (g : Graph) (reachable : List BlockId) (blocks : List BlockId) :
    List Neighbour :=
  Search.lookThrough (g.lookAhead reachable) g.succCount blocks

/-- The quads of one block with their neighbours, given what lies before and
behind the block. -/
def chain (before behind : List Neighbour) : List Quad → List Link
  | [] => []
  | [q] => [⟨q.id, before, behind⟩]
  | q :: q' :: rest =>
    ⟨q.id, before, [some q'.id]⟩ :: chain [some q.id] behind (q' :: rest)

/-- The quads of a graph with their neighbours. -/
def quadGraph (g : Graph) : Except Fault QuadGraph := do
  let reachable := g.programOrder
  let links := g.orderedBlocks.flatMap fun b =>
    chain (g.incoming reachable b.preds) (g.outgoing reachable b.succs) b.quads
  let exit ← g.sentinel .exit
  let entry ← g.sentinel .entry
  return {
    links
    exitPreds := g.incoming reachable exit.preds
    entrySuccs := g.outgoing reachable entry.succs }

end Graph

end Dataflow
