import Dataflow.Element
import Dataflow.Text.Decimal

/-!
# Quads

A quad is a numbered three-address instruction. What the analyses need of one is
which registers it defines, which it uses, which register it checks or compares
against null, and where it may branch to.
-/

namespace Dataflow

/-- The number of a quad. -/
structure QuadId where
  val : UInt32
deriving DecidableEq, Repr, Inhabited

/-- The number of a basic block. -/
structure BlockId where
  val : UInt32
deriving DecidableEq, Repr, Inhabited

/-- A named slot for values. Any text is a name. -/
structure Register where
  name : String
deriving DecidableEq, Repr, Inhabited

namespace QuadId

def text (q : QuadId) : String := Text.Decimal.text q.val.toNat

/-- Quad numbers stand in numeric order. -/
instance : Element QuadId where
  lt a b := a.val < b.val
  decLT a b := inferInstanceAs (Decidable (a.val < b.val))
  irrefl a := UInt32.lt_irrefl a.val
  trans h h' := UInt32.lt_trans h h'
  total a b := by
    rcases Std.lt_trichotomy a.val b.val with h | h | h
    · exact Or.inl h
    · exact Or.inr (Or.inl (by cases a; cases b; exact congrArg QuadId.mk h))
    · exact Or.inr (Or.inr h)
  text := text

/-- The larger of two numbers. -/
def max (a b : QuadId) : QuadId := if a.val < b.val then b else a

end QuadId

namespace BlockId

/-- The sentinel where every run begins. -/
def entry : BlockId := ⟨0⟩

/-- The sentinel where every run ends. -/
def exit : BlockId := ⟨1⟩

def isSentinel (b : BlockId) : Bool := b = entry || b = exit

def text (b : BlockId) : String :=
  if b = entry then "entry"
  else if b = exit then "exit"
  else "block" ++ Text.Decimal.text b.val.toNat

end BlockId

namespace Register

/-- Registers stand in the order of their names, by code point. -/
instance : Element Register where
  lt a b := a.name < b.name
  decLT a b := inferInstanceAs (Decidable (a.name < b.name))
  irrefl a := String.lt_irrefl a.name
  trans h h' := String.lt_trans h h'
  total a b := by
    rcases Std.lt_trichotomy a.name b.name with h | h | h
    · exact Or.inl h
    · exact Or.inr (Or.inl (by cases a; cases b; exact congrArg Register.mk h))
    · exact Or.inr (Or.inr h)
  text := Register.name

end Register

/-- A value known when the method is written. -/
inductive Constant where
  | int (n : Int64)
  | null
  | str (s : String)
deriving DecidableEq

/-- What an instruction reads. -/
inductive Operand where
  | reg (r : Register)
  | const (c : Constant)
deriving DecidableEq

namespace Operand

def register? : Operand → Option Register
  | .reg r => some r
  | .const _ => none

def isNull : Operand → Bool
  | .const .null => true
  | _ => false

/-- The register of a comparison whose other side is null. -/
def againstNull? (lhs rhs : Operand) : Option Register :=
  if rhs.isNull then lhs.register?
  else if lhs.isNull then rhs.register?
  else none

theorem againstNull?_eq_some_iff {lhs rhs : Operand} {r : Register} :
    againstNull? lhs rhs = some r ↔
      lhs = .reg r ∧ rhs = .const .null ∨
        lhs = .const .null ∧ rhs = .reg r := by
  rcases lhs with s | _ | _ | _ <;> rcases rhs with t | _ | _ | _ <;>
    simp [againstNull?, isNull, register?]

end Operand

inductive BinaryOp where
  | add | sub | mul | div | rem | and | or | xor | shl | shr
deriving DecidableEq

inductive UnaryOp where
  | neg | not
deriving DecidableEq

inductive Condition where
  | eq | ne | lt | ge | gt | le
deriving DecidableEq

/-- What a quad does. -/
inductive Instr where
  | move (dst : Register) (src : Operand)
  | binary (op : BinaryOp) (dst : Register) (lhs rhs : Operand)
  | unary (op : UnaryOp) (dst : Register) (src : Operand)
  /-- Stops the run when `checked` is null; defines `guard` if there is one. -/
  | nullCheck (guard : Option Register) (checked : Register)
  /-- Goes to `target` when the comparison holds, and falls through
  otherwise. -/
  | branch (lhs rhs : Operand) (cond : Condition) (target : BlockId)
  | goto (target : BlockId)
  | ret (value : Option Operand)
  | call (dst : Option Register) (method : String) (args : List Operand)
  | getField (dst : Register) (base : Operand) (field : String)
  | putField (base : Operand) (field : String) (value : Operand)
  | nop
deriving DecidableEq

/-- The kinds of instruction, without their operands. -/
inductive Opcode where
  | move | binary | unary | nullCheck | branch | goto | ret | call
  | getField | putField | nop
deriving DecidableEq

/-- A numbered instruction. -/
structure Quad where
  id : QuadId
  instr : Instr
deriving DecidableEq

namespace Instr

def opcode : Instr → Opcode
  | .move .. => .move
  | .binary .. => .binary
  | .unary .. => .unary
  | .nullCheck .. => .nullCheck
  | .branch .. => .branch
  | .goto .. => .goto
  | .ret .. => .ret
  | .call .. => .call
  | .getField .. => .getField
  | .putField .. => .putField
  | .nop => .nop

/-- The operands that an instruction reads, in order. -/
def operands : Instr → List Operand
  | .move _ src => [src]
  | .unary _ _ src => [src]
  | .binary _ _ lhs rhs => [lhs, rhs]
  | .branch lhs rhs _ _ => [lhs, rhs]
  | .nullCheck _ checked => [.reg checked]
  | .ret value => value.toList
  | .call _ _ args => args
  | .getField _ base _ => [base]
  | .putField base _ value => [base, value]
  | .goto _ => []
  | .nop => []

end Instr

namespace Quad

def opcode (q : Quad) : Opcode := q.instr.opcode

/-- The registers that a quad gives a new value; at most one. -/
def defs (q : Quad) : List Register :=
  match q.instr with
  | .move dst _ => [dst]
  | .binary _ dst _ _ => [dst]
  | .unary _ dst _ => [dst]
  | .getField dst _ _ => [dst]
  | .nullCheck guard _ => guard.toList
  | .call dst _ _ => dst.toList
  | .branch .. => []
  | .goto .. => []
  | .ret .. => []
  | .putField .. => []
  | .nop => []

/-- The registers that a quad reads, in the order of its operands. -/
def uses (q : Quad) : List Register :=
  q.instr.operands.filterMap Operand.register?

/-- The register that a null check checks. -/
def checked? (q : Quad) : Option Register :=
  match q.instr with
  | .nullCheck _ checked => some checked
  | _ => none

/-- The register that a branch compares against null, on either side, and
how. -/
def nullTest? (q : Quad) : Option (Register × Condition) :=
  match q.instr with
  | .branch lhs rhs cond _ => (Operand.againstNull? lhs rhs).map (·, cond)
  | _ => none

theorem nullTest?_eq_some_iff {q : Quad} {r : Register} {cond : Condition} :
    q.nullTest? = some (r, cond) ↔ ∃ target,
      q.instr = .branch (.reg r) (.const .null) cond target ∨
        q.instr = .branch (.const .null) (.reg r) cond target := by
  unfold nullTest?
  split
  · next lhs rhs cond' target hinstr =>
    simp only [hinstr, Option.map_eq_some_iff, Operand.againstNull?_eq_some_iff]
    grind
  · next hother =>
    constructor
    · intro h
      cases h
    · rintro ⟨target, hinstr | hinstr⟩
      · exact absurd hinstr (hother _ _ _ _)
      · exact absurd hinstr (hother _ _ _ _)

/-- The block that a quad names as its target. -/
def target? (q : Quad) : Option BlockId :=
  match q.instr with
  | .branch _ _ _ target => some target
  | .goto target => some target
  | _ => none

/-- Changes the target of a quad that has one. -/
def retarget (q : Quad) (target : BlockId) : Quad :=
  match q.instr with
  | .branch lhs rhs cond _ => { q with instr := .branch lhs rhs cond target }
  | .goto _ => { q with instr := .goto target }
  | _ => q

/-- Whether a quad ends its block. -/
def transfersControl (q : Quad) : Bool :=
  match q.instr with
  | .branch .. => true
  | .goto .. => true
  | .ret .. => true
  | _ => false

end Quad

end Dataflow
