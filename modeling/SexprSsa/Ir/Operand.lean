/-
SexprSsa.Ir.Operand — what instructions take as operands.

Values, stack slots, globals and strings go by number, each kind with a
letter of its own in listings and messages.
-/
import SexprSsa.Ir.Type

namespace SexprSsa

/-! ## Numbers of things -/

/-- A value computed by an instruction; numbered per function. -/
structure ValueId where
  index : Nat
  deriving DecidableEq, Repr

/-- A stack slot of a function. -/
structure SlotId where
  index : Nat
  deriving DecidableEq, Repr

/-- A variable of the module. -/
structure GlobalId where
  index : Nat
  deriving DecidableEq, Repr

/-- A string of the module. -/
structure StrId where
  index : Nat
  deriving DecidableEq, Repr

/-- A basic block of a function. -/
structure BlockId where
  index : Nat
  deriving DecidableEq, Repr

instance : ToString ValueId := ⟨fun v => s!"v{v.index}"⟩
instance : ToString SlotId := ⟨fun s => s!"ss{s.index}"⟩
instance : ToString GlobalId := ⟨fun g => s!"gv{g.index}"⟩
instance : ToString StrId := ⟨fun s => s!"str{s.index}"⟩
instance : ToString BlockId := ⟨fun b => s!"block{b.index}"⟩

/-! ## Constants -/

/-- A value known at compile time. -/
inductive Constant where
  | int (value : Int32)
  | bool (value : Bool)
  deriving DecidableEq, Repr

namespace Constant

/-- The type of a constant. -/
def ty : Constant → Ty
  | .int _ => .i32
  | .bool _ => .i1

/-- The number of a constant; truth counts as one. -/
def toInt32 : Constant → Int32
  | .int value => value
  | .bool value => if value then 1 else 0

/-- Whether a constant counts as true. -/
def isTrue : Constant → Bool
  | .int value => value != 0
  | .bool value => value

/-- The notation of a constant. -/
def render : Constant → String
  | .int value => toString value.toInt
  | .bool value => if value then "true" else "false"

end Constant

/-! ## Operands -/

/-- An operand of an instruction. Slots and globals stand for their addresses. -/
inductive Operand where
  | const (value : Constant)
  | temp (id : ValueId)
  | slot (id : SlotId)
  | global (id : GlobalId)
  | str (id : StrId)
  | func (name : String)
  deriving DecidableEq, Repr

namespace Operand

/-- The operand of an integer. -/
def ofInt (value : Int32) : Operand := .const (.int value)

/-- The operand of a truth value. -/
def ofBool (value : Bool) : Operand := .const (.bool value)

/-- The constant an operand is. -/
def constant? : Operand → Option Constant
  | .const value => some value
  | _ => none

/-- The computed value an operand is. -/
def temp? : Operand → Option ValueId
  | .temp id => some id
  | _ => none

/-- Whether an operand is the address of a slot, a global or a string. -/
def isAddress : Operand → Bool
  | .slot _ | .global _ | .str _ => true
  | _ => false

/-- The notation of an operand, by number. -/
def render : Operand → String
  | .const value => value.render
  | .temp id => toString id
  | .slot id => toString id
  | .global id => toString id
  | .str id => toString id
  | .func name => "%" ++ name

end Operand

end SexprSsa
