import Dataflow.Event
import Dataflow.Graph.Order

/-!
# Explicit null checks

Behind a branch that compares a register with null, one of the two ways is taken
only when the register is not null. Each such edge can be split by a block with
a null check of that register, which states on the spot what the branch has
found out. The checks are modelled on the first null check of the method, with
their own register in place of its.

Sites are found before any edge is split. If a split fails, what was done up to
there stays done.
-/

namespace Dataflow

/-- How many comparisons with null were found, and what became of them. -/
structure CheckStats where
  sites : Nat
  inserted : Nat
  skipped : Nat
deriving DecidableEq

instance : JsonForm CheckStats where
  encode s :=
    .record [("sites", JsonForm.encode s.sites),
      ("inserted", JsonForm.encode s.inserted),
      ("skipped", JsonForm.encode s.skipped)]
  decode? j := do
    match ← j.fields? ["sites", "inserted", "skipped"] with
    | [sites, inserted, skipped] =>
      return ⟨← Json.required sites, ← Json.required inserted,
        ← Json.required skipped⟩
    | _ => none

/-- An edge on which a register is known not to be null. -/
structure Site where
  /-- The block of the branch. -/
  block : BlockId
  branch : QuadId
  register : Register
  /-- The block on the other side of the edge. -/
  nonNull : BlockId
  /-- Whether the edge is the one that the branch takes. -/
  taken : Bool

/-- A branch that compares a register with null, in its block. -/
structure NullTest where
  block : Block
  quad : Quad
  register : Register
  cond : Condition

/-- The edge of a comparison with null on which its register is not null. There
is none when the comparison is neither for equality nor against it, or when the
block has no other way out. -/
def NullTest.site? (t : NullTest) : Option Site :=
  match t.block.fallthrough?, t.quad.target?, t.cond with
  | some next, some _, .eq =>
    some ⟨t.block.id, t.quad.id, t.register, next, false⟩
  | some _, some target, .ne =>
    some ⟨t.block.id, t.quad.id, t.register, target, true⟩
  | _, _, _ => none

namespace Block

/-- The comparisons with null in a block. -/
def nullTests (b : Block) : List NullTest :=
  b.quads.filterMap fun q => q.nullTest?.map fun (r, cond) => ⟨b, q, r, cond⟩

/-- A successor put in the place of another, if that is there. -/
def divertSucc (b : Block) (old new : BlockId) : Block :=
  (b.replaceSucc? old new).getD b

/-- A predecessor put in the place of another, if that is there. -/
def divertPred (b : Block) (old new : BlockId) : Block :=
  (b.replacePred? old new).getD b

end Block

namespace Graph

/-- The comparisons with null in reachable blocks, in program order. -/
def nullTests (g : Graph) : List NullTest :=
  g.orderedBlocks.flatMap Block.nullTests

/-- The guard of the first null check, if there is a null check. -/
def templateGuard? (g : Graph) : Option (Option Register) :=
  g.quads.findSome? fun q =>
    match q.instr with
    | .nullCheck guard _ => some guard
    | _ => none

/-- Splits one edge: the graph as far as it was changed, and what happened. -/
def splitEdge (guard : Option Register) (s : Site) (g : Graph) :
    Graph × Except Error Event :=
  match g.freshQuad with
  | .error f => (g, .error (.fault f))
  | .ok (q, g) =>
    match g.freshBlock with
    | .error f => (g, .error (.fault f))
    | .ok (b, g) =>
      let check : Quad := ⟨q, .nullCheck guard s.register⟩
      let g := { g with
        blocks := g.blocks.modify b fun blk =>
          ((blk.push check).withPred s.block).withSucc s.nonNull }
      match g.editBlock s.block fun blk =>
          let blk := blk.divertSucc s.nonNull b
          if s.taken then blk.retargetLast b else blk with
      | .error e => (g, .error e)
      | .ok g =>
        match g.editBlock s.nonNull fun blk => blk.divertPred s.block b with
        | .error e => (g, .error e)
        | .ok g => (g, .ok (.checkInserted s.branch q s.register b))

/-- Splits edges one after the other, up to the first failure. -/
def splitEdges (guard : Option Register) :
    List Site → Graph → Graph × List Event × Except Error Unit
  | [], g => (g, [], .ok ())
  | s :: rest, g =>
    match splitEdge guard s g with
    | (g, .error e) => (g, [], .error e)
    | (g, .ok event) =>
      let (g, events, result) := splitEdges guard rest g
      (g, event :: events, result)

/-- What came of inserting null checks. -/
structure Insertion where
  graph : Graph
  events : List Event
  result : Except Error CheckStats

/-- Puts a null check on the non-null edge of every branch that compares a
register with null. -/
def insertChecks (g : Graph) : Insertion :=
  let tests := g.nullTests
  let sites := tests.filterMap NullTest.site?
  let skipped := tests.filter fun t => t.site?.isNone
  let skips := skipped.map fun t => Event.testSkipped t.quad t.block.id
  let stats : CheckStats := ⟨tests.length, sites.length, skipped.length⟩
  if sites.isEmpty then ⟨g, skips, .ok stats⟩
  else
    match g.templateGuard? with
    | none => ⟨g, skips, .error (.noTemplate g.name)⟩
    | some guard =>
      match splitEdges guard sites g with
      | (g', events, .error e) => ⟨g', skips ++ events, .error e⟩
      | (g', events, .ok ()) =>
        ⟨g', skips ++ events ++
          [.checksInserted g.name stats.sites stats.inserted stats.skipped],
          .ok stats⟩

end Graph

end Dataflow
