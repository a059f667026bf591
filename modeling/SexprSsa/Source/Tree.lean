/-
SexprSsa.Source.Tree — the trees that program texts denote.

A tree is a number, a string literal (its text between the quotes, escapes
kept as written), a symbol or a list of trees. The type of numbers is a
parameter: reading a text yields trees whose numbers are still numerals, and
only then are the numerals turned into 64-bit integers, so that a numeral
that is too large is a fault of its own.

`Tree.spell` writes a tree the way it would be read back.
-/

namespace SexprSsa

/-- A node of a program text. -/
inductive Tree (ν : Type) where
  | number (value : ν)
  | text (raw : String)
  | symbol (name : String)
  | list (items : List (Tree ν))
  deriving Repr

/-- A program: its numbers are signed 64-bit integers. -/
abbrev Expr := Tree Int64

namespace Tree

variable {ν μ ε : Type}

instance : Inhabited (Tree ν) := ⟨.list []⟩

/-! ## Equality of trees is decidable -/

mutual

/-- Compares two trees. -/
def same [DecidableEq ν] : (s t : Tree ν) → Decidable (s = t)
  | .number m, .number n =>
      if h : m = n then .isTrue (by rw [h]) else .isFalse (by simpa using h)
  | .text a, .text b =>
      if h : a = b then .isTrue (by rw [h]) else .isFalse (by simpa using h)
  | .symbol a, .symbol b =>
      if h : a = b then .isTrue (by rw [h]) else .isFalse (by simpa using h)
  | .list xs, .list ys =>
      match sameAll xs ys with
      | .isTrue h => .isTrue (by rw [h])
      | .isFalse h => .isFalse (by simpa using h)
  | .number _, .text _ | .number _, .symbol _ | .number _, .list _
  | .text _, .number _ | .text _, .symbol _ | .text _, .list _
  | .symbol _, .number _ | .symbol _, .text _ | .symbol _, .list _
  | .list _, .number _ | .list _, .text _ | .list _, .symbol _ => .isFalse (by simp)

/-- Compares two lists of trees. -/
def sameAll [DecidableEq ν] : (ss ts : List (Tree ν)) → Decidable (ss = ts)
  | [], [] => .isTrue rfl
  | [], _ :: _ | _ :: _, [] => .isFalse (by simp)
  | s :: ss, t :: ts =>
      match same s t with
      | .isFalse h => .isFalse (by simp [h])
      | .isTrue h =>
          match sameAll ss ts with
          | .isTrue h' => .isTrue (by rw [h, h'])
          | .isFalse h' => .isFalse (by simp [h'])

end

instance [DecidableEq ν] : DecidableEq (Tree ν) := same

/-! ## Parts -/

/-- The name of a symbol. -/
def symbol? : Tree ν → Option String
  | .symbol name => some name
  | _ => none

/-- The items of a list. -/
def items? : Tree ν → Option (List (Tree ν))
  | .list items => some items
  | _ => none

/-! ## Changing the numbers -/

mutual

/-- Reads every number of a tree, from left to right, up to the first failure. -/
def mapNumbers (read : ν → Except ε μ) : Tree ν → Except ε (Tree μ)
  | .number n => do return .number (← read n)
  | .text raw => .ok (.text raw)
  | .symbol name => .ok (.symbol name)
  | .list items => do return .list (← mapAllNumbers read items)

/-- `mapNumbers` along a list. -/
def mapAllNumbers (read : ν → Except ε μ) : List (Tree ν) → Except ε (List (Tree μ))
  | [] => .ok []
  | t :: ts => do
      let t ← mapNumbers read t
      let ts ← mapAllNumbers read ts
      return t :: ts

end

/-! ## Spelling -/

mutual

/-- The text of a tree: one blank between the items of a list, none elsewhere. -/
def spell (numeral : ν → List Char) : Tree ν → List Char
  | .number n => numeral n
  | .text raw => '"' :: (raw.toList ++ ['"'])
  | .symbol name => name.toList
  | .list items => '(' :: (spellAll numeral items ++ [')'])

/-- The texts of the items of a list, separated by blanks. -/
def spellAll (numeral : ν → List Char) : List (Tree ν) → List Char
  | [] => []
  | t :: ts => spell numeral t ++ spellRest numeral ts

/-- The texts of the items that follow another, each after a blank. -/
def spellRest (numeral : ν → List Char) : List (Tree ν) → List Char
  | [] => []
  | t :: ts => ' ' :: (spell numeral t ++ spellRest numeral ts)

end

end Tree

/-- The decimal numeral of a signed 64-bit integer. -/
def numeralOf (n : Int64) : List Char := (toString n.toInt).toList

/-- The text of a program. -/
def Tree.render (e : Expr) : String := String.ofList (e.spell numeralOf)

end SexprSsa
