/-
SexprSsa.Machine.Run — whole runs.

A run starts with a call of a function without arguments and goes on until
that call returns, a fault occurs, or the limit on the number of steps is
reached. The limit comes before anything the next step would do. Output
written before a fault is lost.
-/
import SexprSsa.Machine.Step

namespace SexprSsa.Machine

/-- What a run leads to. -/
structure Outcome where
  result : Option Value
  output : String
  steps : Nat
  deriving DecidableEq, Repr

/-- Goes on for as many steps as are left of a limit. -/
def resume (m : Module) (limit : Nat) : Nat → Config → Except Fault Outcome
  | 0, _ => .error (.stepLimit limit)
  | left + 1, c =>
      match c.step m with
      | .error fault => .error fault
      | .ok (.running c) => resume m limit left c
      | .ok (.halted result output) => .ok ⟨result, output, limit - left⟩

/-- The variables of a module at the start of a run. -/
def initialGlobals (m : Module) : List Value :=
  m.globals.values.map fun var => .ofConstant var.initial

/-- The first state of a run that starts in a frame. -/
def Config.initial (m : Module) (frame : Frame) : Config := ⟨frame, [], initialGlobals m, ""⟩

/-- The limit on the number of steps if none is given. -/
def defaultLimit : Nat := 1000000

/-- Runs a function of a module. -/
def run (m : Module) (limit : Nat) (entry : String) : Except Fault Outcome := do
  match ← invoke m entry [] with
  | .entered frame => resume m limit limit (.initial m frame)
  | .provided written value => return ⟨some value, written, 0⟩

end SexprSsa.Machine
