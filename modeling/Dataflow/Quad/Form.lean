import Dataflow.Quad.Names

/-!
# JSON forms of quads

Numbers and registers are bare values. Constants, operands and instructions are
alternatives; the content of an instruction is a record of its operands.
-/

namespace Dataflow

instance : JsonForm QuadId where
  encode q := JsonForm.encode q.val
  decode? j := QuadId.mk <$> JsonForm.decode? j

instance : JsonForm BlockId where
  encode b := JsonForm.encode b.val
  decode? j := BlockId.mk <$> JsonForm.decode? j

instance : JsonForm Register where
  encode r := JsonForm.encode r.name
  decode? j := Register.mk <$> JsonForm.decode? j

instance : JsonForm Constant where
  encode
    | .int n => .tagged "Int" (JsonForm.encode n)
    | .null => .text "Null"
    | .str s => .tagged "Str" (.text s)
  decode? j := do
    match ← j.alternative? with
    | ("Int", some c) => Constant.int <$> JsonForm.decode? c
    | ("Str", some c) => Constant.str <$> JsonForm.decode? c
    | ("Null", c) => if Json.isBare c then some .null else none
    | _ => none

instance : JsonForm Operand where
  encode
    | .reg r => .tagged "Reg" (JsonForm.encode r)
    | .const c => .tagged "Const" (JsonForm.encode c)
  decode? j := do
    match ← j.alternative? with
    | ("Reg", some c) => Operand.reg <$> JsonForm.decode? c
    | ("Const", some c) => Operand.const <$> JsonForm.decode? c
    | _ => none

namespace Instr

open Json (required orNone)

/-- The names of the fields of each kind of instruction, in order. -/
def fieldNames : Opcode → List String
  | .move => ["dst", "src"]
  | .binary => ["op", "dst", "lhs", "rhs"]
  | .unary => ["op", "dst", "src"]
  | .nullCheck => ["guard", "checked"]
  | .branch => ["lhs", "rhs", "cond", "target"]
  | .goto => ["target"]
  | .ret => ["value"]
  | .call => ["dst", "method", "args"]
  | .getField => ["dst", "base", "field"]
  | .putField => ["base", "field", "value"]
  | .nop => []

/-- The fields of an instruction, in the order of their names. -/
def fields : Instr → List Json
  | .move dst src => [JsonForm.encode dst, JsonForm.encode src]
  | .binary op dst lhs rhs =>
    [JsonForm.encode op, JsonForm.encode dst, JsonForm.encode lhs,
      JsonForm.encode rhs]
  | .unary op dst src =>
    [JsonForm.encode op, JsonForm.encode dst, JsonForm.encode src]
  | .nullCheck guard checked => [JsonForm.encode guard, JsonForm.encode checked]
  | .branch lhs rhs cond target =>
    [JsonForm.encode lhs, JsonForm.encode rhs, JsonForm.encode cond,
      JsonForm.encode target]
  | .goto target => [JsonForm.encode target]
  | .ret value => [JsonForm.encode value]
  | .call dst method args =>
    [JsonForm.encode dst, JsonForm.encode method, JsonForm.encode args]
  | .getField dst base field =>
    [JsonForm.encode dst, JsonForm.encode base, JsonForm.encode field]
  | .putField base field value =>
    [JsonForm.encode base, JsonForm.encode field, JsonForm.encode value]
  | .nop => []

/-- An instruction of a kind, from its fields. -/
def ofFields? : Opcode → List (Option Json) → Option Instr
  | .move, [dst, src] => return .move (← required dst) (← required src)
  | .binary, [op, dst, lhs, rhs] =>
    return .binary (← required op) (← required dst) (← required lhs)
      (← required rhs)
  | .unary, [op, dst, src] =>
    return .unary (← required op) (← required dst) (← required src)
  | .nullCheck, [guard, checked] =>
    return .nullCheck (← orNone guard) (← required checked)
  | .branch, [lhs, rhs, cond, target] =>
    return .branch (← required lhs) (← required rhs) (← required cond)
      (← required target)
  | .goto, [target] => return .goto (← required target)
  | .ret, [value] => return .ret (← orNone value)
  | .call, [dst, method, args] =>
    return .call (← orNone dst) (← required method) (← required args)
  | .getField, [dst, base, field] =>
    return .getField (← required dst) (← required base) (← required field)
  | .putField, [base, field, value] =>
    return .putField (← required base) (← required field) (← required value)
  | _, _ => none

end Instr

instance : JsonForm Instr where
  encode i :=
    match i with
    | .nop => .text (Named.name i.opcode)
    | _ =>
      .tagged (Named.name i.opcode)
        (.record ((Instr.fieldNames i.opcode).zip (Instr.fields i)))
  decode? j := do
    let (name, content) ← j.alternative?
    let opcode : Opcode ← Named.ofName? name
    match opcode, content with
    | .nop, c => if Json.isBare c then some .nop else none
    | _, some c =>
      Json.fields? (Instr.fieldNames opcode) c >>= Instr.ofFields? opcode
    | _, none => none

instance : JsonForm Quad where
  encode q :=
    .record [("id", JsonForm.encode q.id), ("kind", JsonForm.encode q.instr)]
  decode? j := do
    match ← j.fields? ["id", "kind"] with
    | [id, kind] => return ⟨← Json.required id, ← Json.required kind⟩
    | _ => none

end Dataflow
