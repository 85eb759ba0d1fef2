import Dataflow.Block
import Dataflow.Error

/-!
# Control-flow graphs

A method's blocks stand in a keyed list, in the order of their making, together
with two counters for fresh numbers. Numbers are never handed out twice: a fresh
quad number lies above every number in the graph and every number given before,
and when the counters reach their end the operation fails instead of starting
over.

A graph read from outside may hold anything: keys that differ from the blocks'
own numbers, edges to blocks that are not there, even no sentinels. No operation
assumes more than it checks.
-/

namespace Dataflow

/-- A method's name and parameters. -/
structure Method where
  name : String
  params : List Register
deriving DecidableEq

/-- The control-flow graph of one method. -/
structure Graph where
  method : Method
  blocks : KeyedList BlockId Block
  nextQuad : UInt32
  nextBlock : UInt32

namespace Graph

/-- A graph of two sentinels and nothing else. -/
def new (m : Method) : Graph where
  method := m
  blocks := .ofList [(.entry, .new .entry), (.exit, .new .exit)]
  nextQuad := 1
  nextBlock := 2

def name (g : Graph) : String := g.method.name

def params (g : Graph) : List Register := g.method.params

def block? (g : Graph) (b : BlockId) : Option Block := g.blocks.get? b

/-- One of the two blocks that every proper graph has. -/
def sentinel (g : Graph) (b : BlockId) : Except Fault Block :=
  match g.block? b with
  | some blk => .ok blk
  | none => .error (.noSentinel b)

/-- Changes the block under a key, which must be there. -/
def editBlock (g : Graph) (b : BlockId) (f : Block → Block) :
    Except Error Graph :=
  if g.blocks.contains b then .ok { g with blocks := g.blocks.modify b f }
  else .error (.unknownBlock b)

/-- All quads, reachable or not, block by block. -/
def allQuads (g : Graph) : List Quad := g.blocks.values.flatMap Block.quads

/-- The highest quad number in use or handed out so far. -/
def topQuad (g : Graph) : QuadId :=
  (g.allQuads.map Quad.id).foldl QuadId.max
    ⟨if g.nextQuad = 0 then 0 else g.nextQuad - 1⟩

/-- Hands out a quad number above all others. The counter must stay within its
word. -/
def freshQuad (g : Graph) : Except Fault (QuadId × Graph) :=
  let top := g.topQuad.val
  if top.toNat + 2 < UInt32.size then
    .ok (⟨top + 1⟩, { g with nextQuad := top + 2 })
  else .error .overflow

/-- Makes an empty block under a fresh number. -/
def freshBlock (g : Graph) : Except Fault (BlockId × Graph) :=
  let b : BlockId := ⟨g.nextBlock⟩
  if g.nextBlock.toNat + 1 < UInt32.size then
    .ok (b, { g with
      blocks := g.blocks.insert b (.new b)
      nextBlock := g.nextBlock + 1 })
  else .error .overflow

/-- Records an edge at both its ends. -/
def connect (g : Graph) (a b : BlockId) : Except Error Graph := do
  if !g.blocks.contains b then throw (.unknownBlock b)
  let g ← g.editBlock a (·.withSucc b)
  g.editBlock b (·.withPred a)

/-- The first quad with a number. -/
def quad? (g : Graph) (q : QuadId) : Option Quad := g.allQuads.find? (·.id = q)

/-- The block that holds a quad, by its own number, and the quad's place in
it. -/
def whereIs (g : Graph) (q : QuadId) : Except Error (BlockId × Nat) :=
  match g.blocks.values.findSome? fun b =>
    (b.quads.findIdx? (·.id = q)).map fun i => (b.id, i) with
  | some place => .ok place
  | none => .error (.unknownQuad q)

end Graph

end Dataflow
