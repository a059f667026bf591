/-
SexprSsa.Machine.Print — formatted printing.

A format is copied to the output except for its conversions: a percent sign
and a letter take the next argument, two percent signs are one. Arguments
are taken from left to right and those left over are ignored. The first
fault in the text ends the printing; nothing of it is written then.
-/
import SexprSsa.Machine.Fault
import SexprSsa.Ir.Module

namespace SexprSsa.Machine

/-- The text of a string that a value points to. -/
def stringOf (m : Module) : Value → Except Fault String
  | .ptr (.str id) =>
      match m.string? id with
      | some s => .ok s.value
      | none => .error (.unknownString id)
  | value => .error (.notString value)

/-- The text of an argument under a conversion. -/
def convert (m : Module) (conversion : Char) (value : Value) : Except Fault (List Char) :=
  match conversion with
  | 'd' | 'i' => do return (toString (← value.toInt32).toInt).toList
  | 'u' => do return Nat.toDigits 10 (← value.toInt32).toUInt32.toNat
  | 'x' => do return Nat.toDigits 16 (← value.toInt32).toUInt32.toNat
  | 'c' => do return [Char.ofNat ((← value.toInt32).toUInt32.toNat % 256)]
  | 's' => do return (← stringOf m value).toList
  | other => .error (.unsupported other)

/-- The text that a format makes of its arguments. -/
def format (m : Module) : List Char → List Value → Except Fault (List Char)
  | [], _ => .ok []
  | '%' :: [], _ => .error .danglingPercent
  | '%' :: '%' :: rest, args => do return '%' :: (← format m rest args)
  | '%' :: conversion :: _, [] => .error (.missingArgument conversion)
  | '%' :: conversion :: rest, value :: args => do
      let text ← convert m conversion value
      return text ++ (← format m rest args)
  | c :: rest, args => do return c :: (← format m rest args)

/-- What the print function writes; its first argument is the format. -/
def print (m : Module) : List Value → Except Fault String
  | [] => .error .noFormat
  | template :: args => do
      let template ← stringOf m template
      return String.ofList (← format m template.toList args)

/-- What the print function returns: the number of bytes written. -/
def printResult (text : String) : Value := .int (Int32.ofNat text.utf8ByteSize)

end SexprSsa.Machine
