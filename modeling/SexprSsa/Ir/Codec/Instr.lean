/-
SexprSsa.Ir.Codec.Instr — instructions, terminators and blocks as JSON.

An instruction is an object from its kind to a record of its fields. A
return carries its operand or `null`; a block under construction has the
terminator `Invalid`.
-/
import SexprSsa.Ir.Instr
import SexprSsa.Ir.Codec.Operand

namespace SexprSsa

open Json

/-! ## Instructions -/

namespace ArithOp

/-- Writes an operation. -/
def toJson : ArithOp → Json
  | .add => ofText "Add"
  | .sub => ofText "Sub"
  | .mul => ofText "Mul"
  | .div => ofText "SDiv"

/-- Reads an operation. -/
def ofJson? (depth : Nat) (json : Json) : Option ArithOp := do
  match ← variant? depth json with
  | ("Add", payload) => plain? .add payload
  | ("Sub", payload) => plain? .sub payload
  | ("Mul", payload) => plain? .mul payload
  | ("SDiv", payload) => plain? .div payload
  | _ => none

end ArithOp

namespace Cond

/-- Writes a condition. -/
def toJson : Cond → Json
  | .eq => ofText "Equal"
  | .ne => ofText "NotEqual"
  | .gt => ofText "UnsignedGreaterThan"
  | .ge => ofText "UnsignedGreaterThanOrEqual"
  | .lt => ofText "UnsignedLessThan"
  | .le => ofText "UnsignedLessThanOrEqual"

/-- Reads a condition. -/
def ofJson? (depth : Nat) (json : Json) : Option Cond := do
  match ← variant? depth json with
  | ("Equal", payload) => plain? .eq payload
  | ("NotEqual", payload) => plain? .ne payload
  | ("UnsignedGreaterThan", payload) => plain? .gt payload
  | ("UnsignedGreaterThanOrEqual", payload) => plain? .ge payload
  | ("UnsignedLessThan", payload) => plain? .lt payload
  | ("UnsignedLessThanOrEqual", payload) => plain? .le payload
  | _ => none

end Cond

/-- Writes an entry of a phi. -/
def incomingToJson (entry : Operand × BlockId) : Json :=
  .array [entry.1.toJson, ofNat entry.2.index]

/-- Reads an entry of a phi. -/
def incomingOfJson? : Nat → Json → Option (Operand × BlockId) :=
  pair? Operand.ofJson? fun _ => BlockId.ofJson?

namespace Instr

/-- Writes an instruction. -/
def toJson : Instr → Json
  | .alloca slot ty name =>
      tagged "Alloca" (record
        [("slot", ofNat slot.index), ("ty", ty.toJson), ("name", ofText name)])
  | .load result ty address =>
      tagged "Load" (record
        [("result", ofNat result.index), ("ty", ty.toJson), ("address", address.toJson)])
  | .store address value =>
      tagged "Store" (record [("address", address.toJson), ("value", value.toJson)])
  | .arith result op left right =>
      tagged "Binary" (record
        [("result", ofNat result.index), ("op", op.toJson), ("left", left.toJson),
          ("right", right.toJson)])
  | .compare result cond left right =>
      tagged "Icmp" (record
        [("result", ofNat result.index), ("cond", cond.toJson), ("left", left.toJson),
          ("right", right.toJson)])
  | .call result callee args =>
      tagged "Call" (record
        [("result", ofNat result.index), ("callee", ofText callee),
          ("args", .array (args.map Operand.toJson))])
  | .phi result ty incoming =>
      tagged "Phi" (record
        [("result", ofNat result.index), ("ty", ty.toJson),
          ("incoming", .array (incoming.map incomingToJson))])

/-- Reads the fields of an allocation. -/
def allocaOfJson? : Nat → Json → Option Instr
  | depth + 1, json => do
      match ← fields? ["slot", "ty", "name"] json with
      | [some slot, some ty, some name] =>
          return .alloca (← SlotId.ofJson? slot) (← Ty.ofJson? depth ty) (← text? name)
      | _ => none
  | _, _ => none

/-- Reads the fields of a load. -/
def loadOfJson? : Nat → Json → Option Instr
  | depth + 1, json => do
      match ← fields? ["result", "ty", "address"] json with
      | [some result, some ty, some address] =>
          return .load (← ValueId.ofJson? result) (← Ty.ofJson? depth ty)
            (← Operand.ofJson? depth address)
      | _ => none
  | _, _ => none

/-- Reads the fields of a store. -/
def storeOfJson? : Nat → Json → Option Instr
  | depth + 1, json => do
      match ← fields? ["address", "value"] json with
      | [some address, some value] =>
          return .store (← Operand.ofJson? depth address) (← Operand.ofJson? depth value)
      | _ => none
  | _, _ => none

/-- Reads the fields of an arithmetic operation. -/
def arithOfJson? : Nat → Json → Option Instr
  | depth + 1, json => do
      match ← fields? ["result", "op", "left", "right"] json with
      | [some result, some op, some left, some right] =>
          return .arith (← ValueId.ofJson? result) (← ArithOp.ofJson? depth op)
            (← Operand.ofJson? depth left) (← Operand.ofJson? depth right)
      | _ => none
  | _, _ => none

/-- Reads the fields of a comparison. -/
def compareOfJson? : Nat → Json → Option Instr
  | depth + 1, json => do
      match ← fields? ["result", "cond", "left", "right"] json with
      | [some result, some cond, some left, some right] =>
          return .compare (← ValueId.ofJson? result) (← Cond.ofJson? depth cond)
            (← Operand.ofJson? depth left) (← Operand.ofJson? depth right)
      | _ => none
  | _, _ => none

/-- Reads the fields of a call. -/
def callOfJson? : Nat → Json → Option Instr
  | depth + 1, json => do
      match ← fields? ["result", "callee", "args"] json with
      | [some result, some callee, some args] =>
          return .call (← ValueId.ofJson? result) (← text? callee)
            (← list? Operand.ofJson? depth args)
      | _ => none
  | _, _ => none

/-- Reads the fields of a phi. -/
def phiOfJson? : Nat → Json → Option Instr
  | depth + 1, json => do
      match ← fields? ["result", "ty", "incoming"] json with
      | [some result, some ty, some incoming] =>
          return .phi (← ValueId.ofJson? result) (← Ty.ofJson? depth ty)
            (← list? incomingOfJson? depth incoming)
      | _ => none
  | _, _ => none

/-- Reads an instruction. -/
def ofJson? (depth : Nat) (json : Json) : Option Instr := do
  match ← variant? depth json with
  | ("Alloca", payload) => payload? allocaOfJson? payload
  | ("Load", payload) => payload? loadOfJson? payload
  | ("Store", payload) => payload? storeOfJson? payload
  | ("Binary", payload) => payload? arithOfJson? payload
  | ("Icmp", payload) => payload? compareOfJson? payload
  | ("Call", payload) => payload? callOfJson? payload
  | ("Phi", payload) => payload? phiOfJson? payload
  | _ => none

end Instr

/-! ## Blocks -/

namespace Terminator

/-- Writes a terminator. -/
def toJson : Terminator → Json
  | .jump target => tagged "Jump" (ofNat target.index)
  | .branch condition yes no =>
      tagged "Branch" (record
        [("condition", condition.toJson), ("then_block", ofNat yes.index),
          ("else_block", ofNat no.index)])
  | .ret (some value) => tagged "Return" value.toJson
  | .ret none => tagged "Return" .null
  | .missing => ofText "Invalid"

/-- Reads the fields of a branch. -/
def branchOfJson? : Nat → Json → Option Terminator
  | depth + 1, json => do
      match ← fields? ["condition", "then_block", "else_block"] json with
      | [some condition, some yes, some no] =>
          return .branch (← Operand.ofJson? depth condition) (← BlockId.ofJson? yes)
            (← BlockId.ofJson? no)
      | _ => none
  | _, _ => none

/-- Reads a terminator. -/
def ofJson? (depth : Nat) (json : Json) : Option Terminator := do
  match ← variant? depth json with
  | ("Jump", payload) => (payload? (fun _ => BlockId.ofJson?) payload).map .jump
  | ("Branch", payload) => payload? branchOfJson? payload
  | ("Return", payload) => (payload? (nullable? Operand.ofJson?) payload).map .ret
  | ("Invalid", payload) => plain? .missing payload
  | _ => none

end Terminator

namespace Block

/-- Writes a block. -/
def toJson (b : Block) : Json :=
  record
    [("id", ofNat b.id.index), ("name", ofText b.name),
      ("instructions", .array (b.instrs.map Instr.toJson)),
      ("terminator", b.terminator.toJson)]

/-- Reads a block. -/
def ofJson? : Nat → Json → Option Block
  | depth + 1, json => do
      match ← fields? ["id", "name", "instructions", "terminator"] json with
      | [some id, some name, some instrs, some terminator] =>
          return ⟨← BlockId.ofJson? id, ← text? name, ← list? Instr.ofJson? depth instrs,
            ← Terminator.ofJson? depth terminator⟩
      | _ => none
  | _, _ => none

end Block

end SexprSsa
