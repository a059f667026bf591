/-
SexprSsa.Compile.Options — the options of a compilation.

Options name the module and its entry function, list the variables that the
module starts with, and say whether unknown type names are errors. Every
option can be left out when they are read.
-/
import SexprSsa.Json.Decode
import SexprSsa.Json.Writer

namespace SexprSsa

/-- A variable of the module that the options ask for. -/
structure GlobalOption where
  name : String
  value : Int32
  deriving DecidableEq, Repr

/-- The options of a compilation. -/
structure Options where
  moduleName : String := "eva"
  entry : String := "main"
  globals : List GlobalOption := [⟨"VERSION", 42⟩]
  /-- Whether unknown type names are errors. -/
  strict : Bool := false
  deriving DecidableEq, Repr

namespace GlobalOption

open Json

/-- Writes a variable. -/
def toJson (g : GlobalOption) : Json :=
  record [("name", ofText g.name), ("value", .integer g.value.toInt)]

/-- Reads a variable. -/
def ofJson? : Nat → Json → Option GlobalOption
  | _ + 1, json => do
      match ← fields? ["name", "value"] json with
      | [some name, some value] => return ⟨← text? name, ← int32? value⟩
      | _ => none
  | _, _ => none

end GlobalOption

namespace Options

open Json

/-- The options if nothing is asked for. -/
def standard : Options := {}

/-- Writes options. -/
def toJson (o : Options) : Json :=
  record
    [("module_name", ofText o.moduleName), ("entry_function", ofText o.entry),
      ("globals", .array (o.globals.map GlobalOption.toJson)), ("strict_types", .bool o.strict)]

/-- Reads options; what is left out is as in the standard options. -/
def ofJson? : Nat → Json → Option Options
  | depth + 1, json => do
      match ← someFields? ["module_name", "entry_function", "globals", "strict_types"] json with
      | [moduleName, entry, globals, strict] =>
          return ⟨← orDefault standard.moduleName text? moduleName,
            ← orDefault standard.entry text? entry,
            ← orDefault standard.globals (list? GlobalOption.ofJson? depth) globals,
            ← orDefault standard.strict bool? strict⟩
      | _ => none
  | _, _ => none

/-- The text that persists options. -/
def save (o : Options) : String := pretty o.toJson

/-- The options that a text persists. -/
def load? (text : String) : Option Options := decode? ofJson? text

end Options

end SexprSsa
