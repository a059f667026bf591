/-
SexprSsa.Machine.Value — what a machine computes with.

Values at run time are integers of 32 bits, truth values and pointers to a
slot, a variable or a string. Faults show them in a notation of their own
that tells the kinds of values apart.
-/
import SexprSsa.Ir.Operand

namespace SexprSsa.Machine

/-- What a pointer points to. Slots are those of the function that runs. -/
inductive Pointer where
  | slot (id : SlotId)
  | global (id : GlobalId)
  | str (id : StrId)
  deriving DecidableEq, Repr

/-- A value at run time. -/
inductive Value where
  | int (value : Int32)
  | bool (value : Bool)
  | ptr (target : Pointer)
  deriving DecidableEq, Repr

/-- The notation of a pointer in faults. -/
def Pointer.describe : Pointer → String
  | .slot id => s!"Slot(SlotId({id.index}))"
  | .global id => s!"Global(GlobalId({id.index}))"
  | .str id => s!"Str(StrId({id.index}))"

namespace Value

/-- The value of a constant. -/
def ofConstant : Constant → Value
  | .int value => .int value
  | .bool value => .bool value

/-- Whether a value counts as true; every pointer does. -/
def isTrue : Value → Bool
  | .int value => value != 0
  | .bool value => value
  | .ptr _ => true

/-- The notation of a value in faults. -/
def describe : Value → String
  | .int value => s!"Int({value.toInt})"
  | .bool value => if value then "Bool(true)" else "Bool(false)"
  | .ptr target => s!"Ptr({target.describe})"

end Value

end SexprSsa.Machine
