/-
SexprSsa.Text.Excerpt — pointing at a place in a text.

A complaint about a text names a line and a column and shows the line with a
caret under the offending character. Lines end at a line feed; a carriage
return counts as a column but is not shown. Offsets and columns count
characters.
-/

namespace SexprSsa

/-- One line of a text and a place in it; line and column count from one. -/
structure Excerpt where
  line : Nat
  column : Nat
  shown : List Char
  deriving DecidableEq, Repr

namespace Excerpt

/-- Whether a character ends a line. -/
def endsLine (c : Char) : Bool := c == '\n'

/-- The part of the line of an offset that lies before the offset. -/
def before (text : List Char) (offset : Nat) : List Char :=
  ((text.take offset).reverse.takeWhile fun c => !endsLine c).reverse

/-- The excerpt around an offset of a text. -/
def around (text : List Char) (offset : Nat) : Excerpt where
  line := (text.take offset).countP endsLine + 1
  column := (before text offset).length + 1
  shown := (before text offset ++ (text.drop offset).takeWhile fun c => !endsLine c).filter
    fun c => c != '\r'

/-- What stands above the caret's line but left of it: a tab keeps its width. -/
def margin (e : Excerpt) : List Char :=
  (e.shown.take (e.column - 1)).map fun c => if c = '\t' then '\t' else ' '

/-- The excerpt with its caret and a remark on what was expected there. -/
def render (e : Excerpt) (expected : String) : String :=
  let number := toString e.line
  let indent := String.ofList (List.replicate number.length ' ')
  let column := toString e.column
  let shown := String.ofList e.shown
  let margin := String.ofList e.margin
  "\n".intercalate [s!"{indent}--> {number}:{column}", s!"{indent} |", s!"{number} | {shown}",
    s!"{indent} | {margin}^---", s!"{indent} |", s!"{indent} = expected {expected}"]

end Excerpt

end SexprSsa
