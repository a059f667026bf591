/-
SexprSsa.Source.Codec — expressions as JSON.

An expression is an object whose only key names its kind. An item of a list
lies two levels deeper than the list, one for the object and one for the
array.
-/
import SexprSsa.Source.Tree
import SexprSsa.Json.Decode
import SexprSsa.Json.Writer

namespace SexprSsa.Tree

open Json

mutual

/-- Writes an expression. -/
def toJson : Expr → Json
  | .number n => tagged "Number" (.integer n.toInt)
  | .text raw => tagged "String" (ofText raw)
  | .symbol name => tagged "Symbol" (ofText name)
  | .list items => tagged "List" (.array (toJsonAll items))

/-- Writes the items of a list. -/
def toJsonAll : List Expr → List Json
  | [] => []
  | e :: rest => toJson e :: toJsonAll rest

end

/-- Reads an expression. -/
def ofJson? : Nat → Json → Option Expr
  | depth + 1, .object [(key, payload)] => do
      match ← unescape? key with
      | "Number" => (int64? payload).map .number
      | "String" => (text? payload).map .text
      | "Symbol" => (text? payload).map .symbol
      | "List" =>
          match depth, payload with
          | depth + 1, .array items => (items.mapM (ofJson? depth)).map .list
          | _, _ => none
      | _ => none
  | _, _ => none

end SexprSsa.Tree
