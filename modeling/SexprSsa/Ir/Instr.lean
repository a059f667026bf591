/-
SexprSsa.Ir.Instr — instructions, terminators and basic blocks.

Arithmetic wraps at 32 bits and division goes toward zero; comparisons look
at 32-bit patterns without a sign.
-/
import SexprSsa.Ir.Operand

namespace SexprSsa

/-! ## Operators -/

/-- A binary arithmetic operation. -/
inductive ArithOp where
  | add
  | sub
  | mul
  | div
  deriving DecidableEq, Repr

/-- The mnemonic of an operation. -/
def ArithOp.mnemonic : ArithOp → String
  | .add => "iadd"
  | .sub => "isub"
  | .mul => "imul"
  | .div => "sdiv"

/-- The result of an operation; there is none for a division by zero. -/
def ArithOp.eval? (op : ArithOp) (left right : Int32) : Option Int32 :=
  match op with
  | .add => some (left + right)
  | .sub => some (left - right)
  | .mul => some (left * right)
  | .div => if right = 0 then none else some (left / right)

/-- A condition of a comparison. -/
inductive Cond where
  | eq
  | ne
  | gt
  | ge
  | lt
  | le
  deriving DecidableEq, Repr

/-- The mnemonic of a condition. -/
def Cond.mnemonic : Cond → String
  | .eq => "eq"
  | .ne => "ne"
  | .gt => "ugt"
  | .ge => "uge"
  | .lt => "ult"
  | .le => "ule"

/-- Whether a condition holds of two patterns. -/
def Cond.holds (cond : Cond) (left right : UInt32) : Bool :=
  match cond with
  | .eq => left == right
  | .ne => left != right
  | .gt => left > right
  | .ge => left ≥ right
  | .lt => left < right
  | .le => left ≤ right

/-! ## Instructions -/

/-- An instruction. A phi takes the operand listed for the block that control came from. -/
inductive Instr where
  | alloca (slot : SlotId) (ty : Ty) (name : String)
  | load (result : ValueId) (ty : Ty) (address : Operand)
  | store (address value : Operand)
  | arith (result : ValueId) (op : ArithOp) (left right : Operand)
  | compare (result : ValueId) (cond : Cond) (left right : Operand)
  | call (result : ValueId) (callee : String) (args : List Operand)
  | phi (result : ValueId) (ty : Ty) (incoming : List (Operand × BlockId))
  deriving DecidableEq, Repr

namespace Instr

/-- The value an instruction computes. -/
def result? : Instr → Option ValueId
  | .load result .. | .arith result .. | .compare result .. | .call result .. | .phi result .. =>
      some result
  | .alloca .. | .store .. => none

/-- The operands of an instruction, in order. -/
def operands : Instr → List Operand
  | .alloca .. => []
  | .load _ _ address => [address]
  | .store address value => [address, value]
  | .arith _ _ left right | .compare _ _ left right => [left, right]
  | .call _ _ args => args
  | .phi _ _ incoming => incoming.map Prod.fst

/-- Whether an instruction allocates a slot. -/
def isAlloca : Instr → Bool
  | .alloca .. => true
  | _ => false

/-- Whether an instruction is a phi. -/
def isPhi : Instr → Bool
  | .phi .. => true
  | _ => false

end Instr

/-! ## Terminators -/

/-- How a block ends. A block under construction has no terminator yet. -/
inductive Terminator where
  | jump (target : BlockId)
  | branch (condition : Operand) (yes no : BlockId)
  | ret (value : Option Operand)
  | missing
  deriving DecidableEq, Repr

/-- The blocks that may come next. -/
def Terminator.successors : Terminator → List BlockId
  | .jump target => [target]
  | .branch _ yes no => [yes, no]
  | .ret _ | .missing => []

/-! ## Blocks -/

/-- A basic block: instructions and how they end. -/
structure Block where
  id : BlockId
  name : String
  instrs : List Instr
  terminator : Terminator
  deriving DecidableEq, Repr

namespace Block

/-- A block without instructions or terminator. -/
def opened (id : BlockId) (name : String) : Block := ⟨id, name, [], .missing⟩

/-- Whether a block has its terminator. -/
def isTerminated (b : Block) : Bool := b.terminator ≠ .missing

/-- The blocks that may come next. -/
def successors (b : Block) : List BlockId := b.terminator.successors

end Block

end SexprSsa
