/-
SexprSsa.Machine.Step — one step of the machine.

The machine runs one instruction or one terminator a step. A configuration
has the frame of the function that runs, the frames of the functions that
wait for it, the values of the variables and the output so far. Entering a
block and entering a function belong to the step that causes it, so they can
fail in that step.
-/
import SexprSsa.Machine.Print
import Std.Data.ExtTreeMap

namespace SexprSsa.Machine

/-- Values by number. -/
abbrev Memory := Std.ExtTreeMap Nat Value

/-- A function that runs: its body, where control stands, and what it has computed. -/
structure Frame where
  body : Body
  block : BlockId
  /-- The instructions of the block that have not run. -/
  code : List Instr
  exit : Terminator
  cameFrom : Option BlockId
  values : Memory
  slots : Memory

/-- A function that waits for a call to return. -/
structure Suspended where
  frame : Frame
  result : ValueId
  callee : String

/-- A state of the machine. -/
structure Config where
  frame : Frame
  callers : List Suspended
  globals : List Value
  output : String

/-! ## Operands -/

namespace Frame

/-- The value of an operand. -/
def read (f : Frame) : Operand → Except Fault Value
  | .const value => .ok (.ofConstant value)
  | .temp id =>
      match f.values[id.index]? with
      | some value => .ok value
      | none => .error (.unevaluated id)
  | .slot id => .ok (.ptr (.slot id))
  | .global id => .ok (.ptr (.global id))
  | .str id => .ok (.ptr (.str id))
  | .func name => .error (.functionAsValue name)

/-- The number of an operand. -/
def readInt (f : Frame) (operand : Operand) : Except Fault Int32 := do
  (← f.read operand).toInt32

/-- Records the value of a computation. -/
def assign (f : Frame) (result : ValueId) (value : Value) : Frame :=
  { f with values := f.values.insert result.index value }

/-- The incoming operand of a phi for the block that control came from. -/
def incoming (f : Frame) (entries : List (Operand × BlockId)) : Except Fault Operand :=
  match f.cameFrom with
  | none => .error (.noPredecessor f.block)
  | some source =>
      match entries.find? fun entry => entry.2 = source with
      | some entry => .ok entry.1
      | none => .error (.noIncoming f.block source)

end Frame

/-! ## Control -/

/-- The frame at the start of a block. -/
def enterBlock (body : Body) (cameFrom : Option BlockId) (values slots : Memory)
    (target : BlockId) : Except Fault Frame :=
  match body.block? target with
  | some b => .ok ⟨body, target, b.instrs, b.terminator, cameFrom, values, slots⟩
  | none => .error (.missingBlock target)

/-- Control goes from the block of a frame to another. -/
def Frame.goto (f : Frame) (target : BlockId) : Except Fault Frame :=
  enterBlock f.body (some f.block) f.values f.slots target

/-- What a call leads to. -/
inductive Invocation where
  /-- A function of the module starts to run. -/
  | entered (frame : Frame)
  /-- A provided function has run and written something. -/
  | provided (written : String) (value : Value)

/-- Calls a function by name. -/
def invoke (m : Module) (name : String) (args : List Value) : Except Fault Invocation :=
  match m.func? name with
  | none => .error (.functionNotFound name)
  | some f =>
      if f.signature.accepts args.length then
        match f.body with
        | some body => do return .entered (← enterBlock body none ∅ ∅ body.entry)
        | none =>
            if name = printName then do
              let text ← print m args
              return .provided text (printResult text)
            else .error (.notProvided name)
      else .error (.wrongArity name args.length)

/-! ## Instructions -/

namespace Config

/-- Records the value of a computation of the running function. -/
def assign (c : Config) (result : ValueId) (value : Value) : Config :=
  { c with frame := c.frame.assign result value }

/-- The value at an address. -/
def load (c : Config) : Value → Except Fault Value
  | .ptr (.slot id) =>
      match c.frame.slots[id.index]? with
      | some value => .ok value
      | none => .error (.uninitialized id)
  | .ptr (.global id) =>
      match c.globals[id.index]? with
      | some value => .ok value
      | none => .error (.loadUnknown id)
  | other => .error (.loadFrom other)

/-- Puts a value at an address. -/
def store (c : Config) (value : Value) : Value → Except Fault Config
  | .ptr (.slot id) =>
      .ok { c with frame := { c.frame with slots := c.frame.slots.insert id.index value } }
  | .ptr (.global id) =>
      if id.index < c.globals.length then
        .ok { c with globals := c.globals.set id.index value }
      else .error (.storeUnknown id)
  | other => .error (.storeTo other)

/-- Runs an instruction that has been taken off the code of the running function. -/
def execute (m : Module) (c : Config) : Instr → Except Fault Config
  | .alloca .. => .ok c
  | .load result _ address => do
      let value ← c.load (← c.frame.read address)
      return c.assign result value
  | .store address value => do
      let value ← c.frame.read value
      c.store value (← c.frame.read address)
  | .arith result op left right => do
      let left ← c.frame.readInt left
      let right ← c.frame.readInt right
      match op.eval? left right with
      | some value => return c.assign result (.int value)
      | none => throw .divisionByZero
  | .compare result cond left right => do
      let left ← c.frame.readInt left
      let right ← c.frame.readInt right
      return c.assign result (.bool (cond.holds left.toUInt32 right.toUInt32))
  | .call result callee args => do
      let args ← args.mapM c.frame.read
      match ← invoke m callee args with
      | .entered frame => return { c with frame, callers := ⟨c.frame, result, callee⟩ :: c.callers }
      | .provided written value =>
          return { c with output := c.output ++ written }.assign result value
  | .phi result _ entries => do
      let value ← c.frame.read (← c.frame.incoming entries)
      return c.assign result value

end Config

/-! ## Steps -/

/-- What a step leads to. -/
inductive Next where
  | running (config : Config)
  | halted (result : Option Value) (output : String)

namespace Config

/-- Goes on in another block. -/
def goto (c : Config) (target : BlockId) : Except Fault Next := do
  return .running { c with frame := ← c.frame.goto target }

/-- Returns from the running function. -/
def leave (c : Config) (result : Option Value) : Except Fault Next :=
  match c.callers with
  | [] => .ok (.halted result c.output)
  | caller :: callers =>
      match result with
      | some value =>
          .ok (.running { c with frame := caller.frame.assign caller.result value, callers })
      | none => .error (.noResult caller.callee)

/-- Runs a terminator. -/
def terminate (c : Config) : Terminator → Except Fault Next
  | .jump target => c.goto target
  | .branch condition yes no => do
      if (← c.frame.read condition).isTrue then c.goto yes else c.goto no
  | .ret (some value) => do c.leave (some (← c.frame.read value))
  | .ret none => c.leave none
  | .missing => .error (.unterminated c.frame.block)

/-- Runs the next instruction, or the terminator if none is left. -/
def step (m : Module) (c : Config) : Except Fault Next :=
  match c.frame.code with
  | instr :: code => do
      return .running (← { c with frame := { c.frame with code } }.execute m instr)
  | [] => c.terminate c.frame.exit

end Config

end SexprSsa.Machine
