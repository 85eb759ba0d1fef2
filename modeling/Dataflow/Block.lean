import Dataflow.Quad.Form

/-!
# Basic blocks

A block holds quads that run one after the other, and names its neighbours on
both sides. Edges are kept in the order in which they came, each once.
-/

namespace Dataflow

/-- A basic block. -/
structure Block where
  id : BlockId
  quads : List Quad
  preds : List BlockId
  succs : List BlockId
deriving DecidableEq

namespace Block

/-- A block without quads and edges. -/
def new (id : BlockId) : Block := ⟨id, [], [], []⟩

def isEmpty (b : Block) : Bool := b.quads.isEmpty

def first? (b : Block) : Option Quad := b.quads.head?

def last? (b : Block) : Option Quad := b.quads.getLast?

/-- Adds a quad at the end. -/
def push (b : Block) (q : Quad) : Block := { b with quads := b.quads ++ [q] }

/-- Adds an edge at the end of a list, unless it is there. -/
def link (edges : List BlockId) (b : BlockId) : List BlockId :=
  if b ∈ edges then edges else edges ++ [b]

def withSucc (b : Block) (s : BlockId) : Block :=
  { b with succs := link b.succs s }

def withPred (b : Block) (p : BlockId) : Block :=
  { b with preds := link b.preds p }

/-- Puts one successor in the place of another; none when the other is not
there. -/
def replaceSucc? (b : Block) (old new : BlockId) : Option Block :=
  if old ∈ b.succs then some { b with succs := b.succs.replace old new }
  else none

/-- Puts one predecessor in the place of another; none when the other is not
there. -/
def replacePred? (b : Block) (old new : BlockId) : Option Block :=
  if old ∈ b.preds then some { b with preds := b.preds.replace old new }
  else none

/-- Changes the target of the last quad, if it has one. -/
def retargetLast (b : Block) (target : BlockId) : Block :=
  { b with
    quads := b.quads.dropLast ++ (b.last?.map (·.retarget target)).toList }

/-- The successor reached when the last quad does not branch. -/
def fallthrough? (b : Block) : Option BlockId :=
  match b.last?.bind Quad.target? with
  | some target => b.succs.find? (· ≠ target)
  | none => b.succs.head?

end Block

instance : JsonForm Block where
  encode b :=
    .record [("id", JsonForm.encode b.id), ("quads", JsonForm.encode b.quads),
      ("predecessors", JsonForm.encode b.preds),
      ("successors", JsonForm.encode b.succs)]
  decode? j := do
    match ← j.fields? ["id", "quads", "predecessors", "successors"] with
    | [id, quads, preds, succs] =>
      return ⟨← Json.required id, ← Json.required quads, ← Json.required preds,
        ← Json.required succs⟩
    | _ => none

end Dataflow
