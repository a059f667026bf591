/-
SexprSsa.Ir.Codec.Module — functions and modules as JSON.

Records are written with the names and the field order below, tables as
objects in their order; the blocks of a body are keyed by their numbers as
text. `Module.save` and `Module.load?` are the persisted form of a module.
-/
import SexprSsa.Ir.Module
import SexprSsa.Ir.Codec.Instr

namespace SexprSsa

open Json

/-! ## Bodies -/

namespace StackSlot

/-- Writes a slot. -/
def toJson (s : StackSlot) : Json :=
  record [("id", ofNat s.id.index), ("name", ofText s.name), ("ty", s.ty.toJson)]

/-- Reads a slot. -/
def ofJson? : Nat → Json → Option StackSlot
  | depth + 1, json => do
      match ← fields? ["id", "name", "ty"] json with
      | [some id, some name, some ty] =>
          return ⟨← SlotId.ofJson? id, ← text? name, ← Ty.ofJson? depth ty⟩
      | _ => none
  | _, _ => none

end StackSlot

/-- Reads the key of a block: the plain decimal digits of its number. -/
def BlockId.ofKey? (raw : String) : Option BlockId :=
  match number? raw.toList with
  | some (json, []) => BlockId.ofJson? json
  | _ => none

namespace Body

/-- Writes a body. -/
def toJson (body : Body) : Json :=
  let blocks := body.blocks.entries.map fun (id, b) => (toString id.index, b.toJson)
  record
    [("entry_block", ofNat body.entry.index), ("blocks", record blocks),
      ("layout", .array (body.layout.map fun id => ofNat id.index)),
      ("slots", .array (body.slots.map StackSlot.toJson)),
      ("next_block_id", ofNat body.nextBlock), ("next_value_id", ofNat body.nextValue)]

/-- Reads a body. -/
def ofJson? : Nat → Json → Option Body
  | depth + 1, json => do
      match ← fields? ["entry_block", "blocks", "layout", "slots", "next_block_id",
        "next_value_id"] json with
      | [some entry, some blocks, some layout, some slots, some nextBlock, some nextValue] =>
          return {
            entry := ← BlockId.ofJson? entry
            blocks := ← table? BlockId.ofKey? Block.ofJson? depth blocks
            layout := ← list? (fun _ => BlockId.ofJson?) depth layout
            slots := ← list? StackSlot.ofJson? depth slots
            nextBlock := ← nat32? nextBlock
            nextValue := ← nat32? nextValue }
      | _ => none
  | _, _ => none

end Body

/-! ## Functions -/

namespace Signature

/-- Writes a signature. -/
def toJson (s : Signature) : Json :=
  record
    [("name", ofText s.name), ("params", .array (s.params.map Ty.toJson)),
      ("ret", s.ret.toJson), ("variadic", .bool s.variadic)]

/-- Reads a signature. -/
def ofJson? : Nat → Json → Option Signature
  | depth + 1, json => do
      match ← fields? ["name", "params", "ret", "variadic"] json with
      | [some name, some params, some ret, some variadic] =>
          return ⟨← text? name, ← list? Ty.ofJson? depth params, ← Ty.ofJson? depth ret,
            ← bool? variadic⟩
      | _ => none
  | _, _ => none

end Signature

namespace Func

/-- Writes a function. -/
def toJson (f : Func) : Json :=
  record
    [("signature", f.signature.toJson),
      ("body", match f.body with
        | some body => body.toJson
        | none => .null)]

/-- Reads a function; an object may leave the body out. -/
def ofJson? : Nat → Json → Option Func
  | depth + 1, json => do
      match ← fields? ["signature", "body"] json with
      | [some signature, body] =>
          return ⟨← Signature.ofJson? depth signature,
            ← orDefault none (nullable? Body.ofJson? depth) body⟩
      | _ => none
  | _, _ => none

end Func

/-! ## Modules -/

namespace GlobalVar

/-- Writes a variable. -/
def toJson (var : GlobalVar) : Json :=
  record
    [("id", ofNat var.id.index), ("name", ofText var.name), ("ty", var.ty.toJson),
      ("initializer", var.initial.toJson), ("is_constant", .bool var.isConstant),
      ("align", ofNat var.align)]

/-- Reads a variable. -/
def ofJson? : Nat → Json → Option GlobalVar
  | depth + 1, json => do
      match ← fields? ["id", "name", "ty", "initializer", "is_constant", "align"] json with
      | [some id, some name, some ty, some initial, some isConstant, some align] =>
          return ⟨← GlobalId.ofJson? id, ← text? name, ← Ty.ofJson? depth ty,
            ← Constant.ofJson? depth initial, ← bool? isConstant, ← nat32? align⟩
      | _ => none
  | _, _ => none

end GlobalVar

namespace StrConst

/-- Writes a string. -/
def toJson (s : StrConst) : Json :=
  record [("id", ofNat s.id.index), ("value", ofText s.value)]

/-- Reads a string. -/
def ofJson? : Nat → Json → Option StrConst
  | _ + 1, json => do
      match ← fields? ["id", "value"] json with
      | [some id, some value] => return ⟨← StrId.ofJson? id, ← text? value⟩
      | _ => none
  | _, _ => none

end StrConst

namespace Module

/-- Writes a module. -/
def toJson (m : Module) : Json :=
  record
    [("name", ofText m.name),
      ("globals", record (m.globals.entries.map fun (name, var) => (name, var.toJson))),
      ("strings", .array (m.strings.map StrConst.toJson)),
      ("functions", record (m.functions.entries.map fun (name, f) => (name, f.toJson)))]

/-- Reads a module. -/
def ofJson? : Nat → Json → Option Module
  | depth + 1, json => do
      match ← fields? ["name", "globals", "strings", "functions"] json with
      | [some name, some globals, some strings, some functions] =>
          return ⟨← text? name, ← table? unescape? GlobalVar.ofJson? depth globals,
            ← list? StrConst.ofJson? depth strings,
            ← table? unescape? Func.ofJson? depth functions⟩
      | _ => none
  | _, _ => none

/-- The persisted form of a module. -/
def save (m : Module) : String := pretty m.toJson

/-- The module that a text persists. -/
def load? (text : String) : Option Module := decode? ofJson? text

end Module

end SexprSsa
