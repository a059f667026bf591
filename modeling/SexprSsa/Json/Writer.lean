/-
SexprSsa.Json.Writer — writing JSON texts.

The compact form has no blanks. The pretty form puts every item and member on
a line of its own, two spaces further in than the array or object it belongs
to; an empty array or object stays on its line.
-/
import SexprSsa.Json.Basic
import SexprSsa.Json.Escape

namespace SexprSsa.Json

/-- The value of a text. -/
def ofText (s : String) : Json := .string (escape s)

/-- The value of a natural number. -/
def ofNat (n : Nat) : Json := .integer n

/-- An object whose keys need no escapes or get them here. -/
def record (members : List (String × Json)) : Json :=
  .object (members.map fun (key, value) => (escape key, value))

/-- A variant that carries a value: an object with one member. -/
def tagged (tag : String) (payload : Json) : Json := .object [(escape tag, payload)]

/-- A scalar's text, the same in both forms. -/
def scalar : Json → String
  | .null => "null"
  | .bool value => if value then "true" else "false"
  | .integer value => toString value
  | .inexact text => text
  | .string raw => "\"" ++ raw ++ "\""
  | .array _ => "[]"
  | .object _ => "\x7b\x7d"

/-! ## Compact -/

mutual

/-- The text without blanks. -/
def compact : Json → String
  | .array items => "[" ++ compactItems items ++ "]"
  | .object members => "\x7b" ++ compactMembers members ++ "\x7d"
  | value => scalar value

/-- Items separated by commas. -/
def compactItems : List Json → String
  | [] => ""
  | [item] => compact item
  | item :: items => compact item ++ "," ++ compactItems items

/-- Members separated by commas. -/
def compactMembers : List (String × Json) → String
  | [] => ""
  | [(key, value)] => "\"" ++ key ++ "\":" ++ compact value
  | (key, value) :: members =>
      "\"" ++ key ++ "\":" ++ compact value ++ "," ++ compactMembers members

end

/-! ## Pretty -/

/-- A line break and the indentation of a level. -/
def newline (level : Nat) : String := "\n" ++ String.ofList (List.replicate (2 * level) ' ')

mutual

/-- The text with one item or member a line, for a value that stands at a level. -/
def prettyAt (level : Nat) : Json → String
  | .array (item :: items) =>
      "[" ++ prettyItems (level + 1) (item :: items) ++ newline level ++ "]"
  | .object (member :: members) =>
      "\x7b" ++ prettyMembers (level + 1) (member :: members) ++ newline level ++ "\x7d"
  | value => scalar value

/-- Items, each on a new line of the level. -/
def prettyItems (level : Nat) : List Json → String
  | [] => ""
  | [item] => newline level ++ prettyAt level item
  | item :: items => newline level ++ prettyAt level item ++ "," ++ prettyItems level items

/-- Members, each on a new line of the level. -/
def prettyMembers (level : Nat) : List (String × Json) → String
  | [] => ""
  | [(key, value)] => newline level ++ "\"" ++ key ++ "\": " ++ prettyAt level value
  | (key, value) :: members =>
      newline level ++ "\"" ++ key ++ "\": " ++ prettyAt level value ++ "," ++
        prettyMembers level members

end

/-- The pretty text of a value. -/
def pretty (value : Json) : String := prettyAt 0 value

end SexprSsa.Json
