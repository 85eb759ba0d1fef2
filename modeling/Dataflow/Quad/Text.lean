import Dataflow.Quad.Names
import Dataflow.Text.Quoted

/-!
# Printed quads

A quad is printed on one line: its number, a colon, its operation and its
operands. String constants are quoted, so that no constant can break the line.
-/

namespace Dataflow

def Constant.text : Constant → String
  | .int n => String.ofList (Text.Decimal.signed n.toInt)
  | .null => "null"
  | .str s => Text.quoted s

def Operand.text : Operand → String
  | .reg r => r.name
  | .const c => c.text

def Instr.text : Instr → String
  | .move dst src => "MOVE " ++ dst.name ++ ", " ++ src.text
  | .binary op dst lhs rhs =>
    Named.name op ++ " " ++ dst.name ++ ", " ++ lhs.text ++ ", " ++ rhs.text
  | .unary op dst src => Named.name op ++ " " ++ dst.name ++ ", " ++ src.text
  | .nullCheck (some guard) checked =>
    "NULL_CHECK " ++ guard.name ++ ", " ++ checked.name
  | .nullCheck none checked => "NULL_CHECK " ++ checked.name
  | .branch lhs rhs cond target =>
    "IFCMP " ++ lhs.text ++ ", " ++ rhs.text ++ ", " ++ Named.name cond ++
      ", " ++ target.text
  | .goto target => "GOTO " ++ target.text
  | .ret (some value) => "RETURN " ++ value.text
  | .ret none => "RETURN"
  | .call dst method args =>
    let result := match dst with
      | some r => r.name ++ ", "
      | none => ""
    "CALL " ++ result ++ method ++ "(" ++
      ", ".intercalate (args.map Operand.text) ++ ")"
  | .getField dst base field =>
    "GETFIELD " ++ dst.name ++ ", " ++ base.text ++ "." ++ field
  | .putField base field value =>
    "PUTFIELD " ++ base.text ++ "." ++ field ++ ", " ++ value.text
  | .nop => "NOP"

/-- The printed form of a quad. -/
def Quad.text (q : Quad) : String := q.id.text ++ ": " ++ q.instr.text

end Dataflow
