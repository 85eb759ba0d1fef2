import Dataflow.Json.Form
import Dataflow.Quad.Basic

/-!
# Names of operations

Operations, conditions and instruction kinds have fixed names. They stand in
printed quads and in JSON alike.
-/

namespace Dataflow

instance : Named BinaryOp where
  all := [.add, .sub, .mul, .div, .rem, .and, .or, .xor, .shl, .shr]
  name
    | .add => "Add"
    | .sub => "Sub"
    | .mul => "Mul"
    | .div => "Div"
    | .rem => "Rem"
    | .and => "And"
    | .or => "Or"
    | .xor => "Xor"
    | .shl => "Shl"
    | .shr => "Shr"

instance : Named UnaryOp where
  all := [.neg, .not]
  name
    | .neg => "Neg"
    | .not => "Not"

instance : Named Condition where
  all := [.eq, .ne, .lt, .ge, .gt, .le]
  name
    | .eq => "Eq"
    | .ne => "Ne"
    | .lt => "Lt"
    | .ge => "Ge"
    | .gt => "Gt"
    | .le => "Le"

instance : Named Opcode where
  all :=
    [.move, .binary, .unary, .nullCheck, .branch, .goto, .ret, .call,
      .getField, .putField, .nop]
  name
    | .move => "Move"
    | .binary => "Binary"
    | .unary => "Unary"
    | .nullCheck => "NullCheck"
    | .branch => "IfCmp"
    | .goto => "Goto"
    | .ret => "Return"
    | .call => "Call"
    | .getField => "GetField"
    | .putField => "PutField"
    | .nop => "Nop"

end Dataflow
