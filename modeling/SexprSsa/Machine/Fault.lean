/-
SexprSsa.Machine.Fault — how runs fail.

A fault ends a run. Each is a cause, and its wording is in one place; a
function that is not found has a heading of its own.
-/
import SexprSsa.Machine.Value

namespace SexprSsa.Machine

/-- Why a run ends without a result. -/
inductive Fault where
  | functionNotFound (name : String)
  | wrongArity (name : String) (count : Nat)
  /-- The function is declared and nothing outside provides it. -/
  | notProvided (name : String)
  /-- The provided print function is declared so that it can be called without a format. -/
  | noFormat
  | missingBlock (block : BlockId)
  | unterminated (block : BlockId)
  | stepLimit (limit : Nat)
  | uninitialized (slot : SlotId)
  | loadUnknown (global : GlobalId)
  | loadFrom (value : Value)
  | storeUnknown (global : GlobalId)
  | storeTo (value : Value)
  | divisionByZero
  | noResult (callee : String)
  | noPredecessor (block : BlockId)
  | noIncoming (block source : BlockId)
  | unevaluated (value : ValueId)
  | functionAsValue (name : String)
  | notInteger (target : Pointer)
  | unknownString (string : StrId)
  | notString (value : Value)
  | danglingPercent
  | missingArgument (conversion : Char)
  | unsupported (conversion : Char)
  deriving DecidableEq, Repr

namespace Fault

/-- What happened, without a heading. -/
def reason : Fault → String
  | .functionNotFound name => name
  | .wrongArity name count => s!"{name} called with {count} arguments"
  | .notProvided name => s!"no host implementation for extern {name}"
  | .noFormat => "printf called without a format"
  | .missingBlock b => s!"jump to missing {b}"
  | .unterminated b => s!"fell off unterminated {b}"
  | .stepLimit limit => s!"step limit of {limit} exceeded"
  | .uninitialized s => s!"load from uninitialized {s}"
  | .loadUnknown g => s!"load from unknown {g}"
  | .loadFrom value => s!"load from non-variable address {value.describe}"
  | .storeUnknown g => s!"store to unknown {g}"
  | .storeTo value => s!"store to non-variable address {value.describe}"
  | .divisionByZero => "division by zero"
  | .noResult callee => s!"{callee} returned no value"
  | .noPredecessor b => s!"phi in {b} reached without a predecessor"
  | .noIncoming b source => s!"phi in {b} has no entry for {source}"
  | .unevaluated v => s!"use of unevaluated {v}"
  | .functionAsValue name => s!"function %{name} used as a value"
  | .notInteger target => s!"expected an integer, found pointer {target.describe}"
  | .unknownString s => s!"unknown string {s}"
  | .notString value => s!"expected a string, found {value.describe}"
  | .danglingPercent => "dangling % in format string"
  | .missingArgument c => s!"missing argument for %{c}"
  | .unsupported c => s!"unsupported conversion %{c}"

/-- The heading of a fault. -/
def heading : Fault → String
  | .functionNotFound _ => "Function not found"
  | _ => "Execution error"

/-- The wording of a fault. -/
def message (fault : Fault) : String := s!"{fault.heading}: {fault.reason}"

end Fault

/-- The number a value stands for; truth counts as one, a pointer is no number. -/
def Value.toInt32 : Value → Except Fault Int32
  | .int value => .ok value
  | .bool value => .ok (if value then 1 else 0)
  | .ptr target => .error (.notInteger target)

end SexprSsa.Machine
