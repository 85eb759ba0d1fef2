import Dataflow.Graph.Basic

/-!
# JSON form of graphs

The blocks are an object whose keys are block numbers. Its order is the order of
the blocks, and a repeated key keeps its first place and takes its last value. A
key is written with digits alone, none of them escaped.
-/

namespace Dataflow

instance : JsonForm Method where
  encode m :=
    .record [("name", JsonForm.encode m.name),
      ("params", JsonForm.encode m.params)]
  decode? j := do
    match ← j.fields? ["name", "params"] with
    | [name, params] => return ⟨← Json.required name, ← Json.required params⟩
    | _ => none

namespace BlockId

/-- A block number as a key. -/
def key (b : BlockId) : Json.Literal :=
  Json.Literal.ofString (Text.Decimal.text b.val.toNat)

/-- Reads a key. -/
def ofKey? (k : Json.Literal) : Option BlockId := do
  let n ← Text.Decimal.read? (← k.plain?)
  if n < UInt32.size then return ⟨UInt32.ofNat n⟩ else none

end BlockId

instance : JsonForm (KeyedList BlockId Block) where
  encode m := .obj (m.entries.map fun e => (e.1.key, JsonForm.encode e.2))
  decode?
    | .obj members => do
      let entries ← members.mapM fun m => do
        return (← BlockId.ofKey? m.1, ← JsonForm.decode? m.2)
      return .ofList entries
    | _ => none

instance : JsonForm Graph where
  encode g :=
    .record [("method", JsonForm.encode g.method),
      ("blocks", JsonForm.encode g.blocks),
      ("next_quad_id", JsonForm.encode g.nextQuad),
      ("next_block_id", JsonForm.encode g.nextBlock)]
  decode? j := do
    match ← j.fields? ["method", "blocks", "next_quad_id", "next_block_id"] with
    | [method, blocks, nextQuad, nextBlock] =>
      return ⟨← Json.required method, ← Json.required blocks,
        ← Json.required nextQuad, ← Json.required nextBlock⟩
    | _ => none

end Dataflow
