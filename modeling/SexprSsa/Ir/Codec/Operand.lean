/-
SexprSsa.Ir.Codec.Operand — types, constants and operands as JSON.

A variant is written as its name, or as an object from its name to what it
carries. Numbers of things are plain numbers, of 32 bits when read.
-/
import SexprSsa.Ir.Operand
import SexprSsa.Json.Decode
import SexprSsa.Json.Writer

namespace SexprSsa

open Json

/-! ## Types, constants and operands -/

namespace Ty

/-- Writes a type. -/
def toJson : Ty → Json
  | .i1 => ofText "I1"
  | .i8 => ofText "I8"
  | .i32 => ofText "I32"
  | .ptr pointee => tagged "Ptr" (toJson pointee)
  | .void => ofText "Void"

/-- The type that goes by a name alone. -/
def named? : String → Option Ty
  | "I1" => some .i1
  | "I8" => some .i8
  | "I32" => some .i32
  | "Void" => some .void
  | _ => none

/-- Reads a type. -/
def ofJson? : Nat → Json → Option Ty
  | _, .string raw => do named? (← unescape? raw)
  | depth + 1, .object [(key, payload)] => do
      let name ← unescape? key
      if name = "Ptr" then return .ptr (← ofJson? depth payload)
      else
        let ty ← named? name
        plain? ty (some (depth, payload))
  | _, _ => none

end Ty

namespace Constant

/-- Writes a constant. -/
def toJson : Constant → Json
  | .int value => tagged "Int" (.integer value.toInt)
  | .bool value => tagged "Bool" (.bool value)

/-- Reads a constant. -/
def ofJson? (depth : Nat) (json : Json) : Option Constant := do
  match ← variant? depth json with
  | ("Int", payload) => (payload? (fun _ => int32?) payload).map .int
  | ("Bool", payload) => (payload? (fun _ => bool?) payload).map .bool
  | _ => none

end Constant

/-- Reads the number of a value. -/
def ValueId.ofJson? (json : Json) : Option ValueId := (nat32? json).map ValueId.mk

/-- Reads the number of a slot. -/
def SlotId.ofJson? (json : Json) : Option SlotId := (nat32? json).map SlotId.mk

/-- Reads the number of a variable. -/
def GlobalId.ofJson? (json : Json) : Option GlobalId := (nat32? json).map GlobalId.mk

/-- Reads the number of a string. -/
def StrId.ofJson? (json : Json) : Option StrId := (nat32? json).map StrId.mk

/-- Reads the number of a block. -/
def BlockId.ofJson? (json : Json) : Option BlockId := (nat32? json).map BlockId.mk

namespace Operand

/-- Writes an operand. -/
def toJson : Operand → Json
  | .const value => tagged "Constant" value.toJson
  | .temp id => tagged "Temp" (ofNat id.index)
  | .slot id => tagged "Slot" (ofNat id.index)
  | .global id => tagged "Global" (ofNat id.index)
  | .str id => tagged "Str" (ofNat id.index)
  | .func name => tagged "Function" (ofText name)

/-- Reads an operand. -/
def ofJson? (depth : Nat) (json : Json) : Option Operand := do
  match ← variant? depth json with
  | ("Constant", payload) => (payload? Constant.ofJson? payload).map .const
  | ("Temp", payload) => (payload? (fun _ => ValueId.ofJson?) payload).map .temp
  | ("Slot", payload) => (payload? (fun _ => SlotId.ofJson?) payload).map .slot
  | ("Global", payload) => (payload? (fun _ => GlobalId.ofJson?) payload).map .global
  | ("Str", payload) => (payload? (fun _ => StrId.ofJson?) payload).map .str
  | ("Function", payload) => (payload? (fun _ => text?) payload).map .func
  | _ => none

end Operand

end SexprSsa
