/-
SexprSsa.Json.Decode — what a JSON value means as data.

A decoder takes the number of arrays and objects it may still enter; a value
that nests deeper where it is looked at is refused. Parts that no decoder
looks at may nest as they like.

* A record is an object, whose unknown members are ignored and whose known
  ones may not repeat, or an array of its fields in order.
* A variant is its name alone, or an object with the name as its only key. A
  variant without a payload may also be written with the payload `null`.
* A table is an object; of members with one key the last counts, in the
  place of the first.
-/
import SexprSsa.Json.Reader
import SexprSsa.Data.Table

namespace SexprSsa.Json

/-- How deep arrays and objects may nest. -/
def nestingLimit : Nat := 127

/-! ## Scalars -/

/-- A text; its escapes must denote characters. -/
def text? : Json → Option String
  | .string raw => unescape? raw
  | _ => none

/-- A truth value. -/
def bool? : Json → Option Bool
  | .bool value => some value
  | _ => none

/-- An integer between two bounds, both included. -/
def within? (low high : Int) : Json → Option Int
  | .integer value => if low ≤ value ∧ value ≤ high then some value else none
  | _ => none

/-- A natural number below a bound. -/
def below? (bound : Nat) (json : Json) : Option Nat :=
  (within? 0 (bound - 1) json).map Int.toNat

/-- A signed integer of 32 bits. -/
def int32? (json : Json) : Option Int32 :=
  (within? (-0x80000000) 0x7fffffff json).map Int32.ofInt

/-- A signed integer of 64 bits. -/
def int64? (json : Json) : Option Int64 :=
  (within? (-0x8000000000000000) 0x7fffffffffffffff json).map Int64.ofInt

/-- A natural number of 32 bits. -/
def nat32? (json : Json) : Option Nat := below? 0x100000000 json

/-- A natural number of 64 bits. -/
def nat64? (json : Json) : Option Nat := below? 0x10000000000000000 json

/-! ## Arrays -/

variable {α β κ : Type}

/-- An array of any length. -/
def list? (item : Nat → Json → Option α) : Nat → Json → Option (List α)
  | depth + 1, .array items => items.mapM (item depth)
  | _, _ => none

/-- An array of exactly two items. -/
def pair? (first : Nat → Json → Option α) (second : Nat → Json → Option β) :
    Nat → Json → Option (α × β)
  | depth + 1, .array [a, b] => do return (← first depth a, ← second depth b)
  | _, _ => none

/-- A value or `null`. -/
def nullable? (item : Nat → Json → Option α) (depth : Nat) : Json → Option (Option α)
  | .null => some none
  | json => (item depth json).map some

/-! ## Records -/

/-- Members with their keys decoded. -/
def decodeKeys (members : List (String × Json)) : Option (List (String × Json)) :=
  members.mapM fun (key, value) => (unescape? key).map fun key => (key, value)

/-- The value of a member that must not repeat. -/
def field? (members : List (String × Json)) (name : String) : Option (Option Json) :=
  match members.filter fun member => member.1 = name with
  | [] => some none
  | [member] => some (some member.2)
  | _ => none

/-- The fields of a record that can leave fields out; an array may stop early. -/
def someFields? (names : List String) : Json → Option (List (Option Json))
  | .object members => do names.mapM (field? (← decodeKeys members))
  | .array items =>
      if items.length ≤ names.length then
        some (items.map some ++ List.replicate (names.length - items.length) none)
      else none
  | _ => none

/-- The fields of a record; an array must hold all of them. -/
def fields? (names : List String) : Json → Option (List (Option Json))
  | .array items => if items.length = names.length then some (items.map some) else none
  | json => someFields? names json

/-- The value of a field that may be left out. -/
def orDefault (default : α) (decode : Json → Option α) : Option Json → Option α
  | none => some default
  | some json => decode json

/-! ## Variants -/

/-- The name of a variant and, if the object form is used, its payload with the remaining depth. -/
def variant? : Nat → Json → Option (String × Option (Nat × Json))
  | _, .string raw => (unescape? raw).map fun name => (name, none)
  | depth + 1, .object [(key, payload)] =>
      (unescape? key).map fun name => (name, some (depth, payload))
  | _, _ => none

/-- A variant without a payload. -/
def plain? (result : α) : Option (Nat × Json) → Option α
  | none => some result
  | some (_, .null) => some result
  | some _ => none

/-- A variant with a payload. -/
def payload? (decode : Nat → Json → Option α) : Option (Nat × Json) → Option α
  | some (depth, json) => decode depth json
  | none => none

/-! ## Tables -/

/-- An object as a table; `key` gets the key as it is written. -/
def table? [DecidableEq κ] (key : String → Option κ) (item : Nat → Json → Option α) :
    Nat → Json → Option (Table κ α)
  | depth + 1, .object members => do
      let entries ← members.mapM fun (raw, value) => do
        return (← key raw, ← item depth value)
      return Table.ofList entries
  | _, _ => none

/-- Reads a text and decodes it. -/
def decode? (decode : Nat → Json → Option α) (text : String) : Option α :=
  (parse? text).bind (decode nestingLimit)

end SexprSsa.Json
