/-
SexprSsa.Json.Basic — JSON values.

A value keeps what a reader of a persisted module may look at and no more:
string literals and object keys stay as written between their quotes, so
that parts nobody reads are never decoded; members stay in order with their
repetitions; a number is either an integer or the text of some other number
(with a fraction or an exponent, or the negative zero).
-/

namespace SexprSsa

/-- A JSON value. -/
inductive Json where
  | null
  | bool (value : Bool)
  | integer (value : Int)
  | inexact (text : String)
  | string (raw : String)
  | array (items : List Json)
  | object (members : List (String × Json))
  deriving Repr

namespace Json

instance : Inhabited Json := ⟨.null⟩

mutual

/-- How deep arrays and objects nest; a scalar has depth zero. -/
def depth : Json → Nat
  | .array items => depthItems items + 1
  | .object members => depthMembers members + 1
  | _ => 0

/-- The greatest depth in a list. -/
def depthItems : List Json → Nat
  | [] => 0
  | v :: rest => max (depth v) (depthItems rest)

/-- The greatest depth among the values of members. -/
def depthMembers : List (String × Json) → Nat
  | [] => 0
  | (_, v) :: rest => max (depth v) (depthMembers rest)

end

end Json

end SexprSsa
