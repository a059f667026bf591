/-
SexprSsa.Source.Reader — from texts to trees.

The reader goes through the tokens of a text once, from left to right, with
the lists that are still open on a stack. A text is accepted if its tokens
form exactly one tree. The place of a complaint is the first token that no
accepted text could have there, or the end of the text, or the opening quote
of a literal that is never closed; what was expected depends only on whether
the tree was complete before that place.

A program is the text between an implicit `(begin ` and `)`; a line feed
stands before the closing parenthesis so that a comment on the last line
does not swallow it.
-/
import SexprSsa.Source.Token
import SexprSsa.Source.Tree
import SexprSsa.Text.Excerpt

namespace SexprSsa

/-! ## Numerals -/

/-- An optional minus sign and at least one decimal digit. -/
def isNumeral : List Char → Bool
  | '-' :: digits => !digits.isEmpty && digits.all Char.isDigit
  | digits => !digits.isEmpty && digits.all Char.isDigit

/-- The integer that a numeral denotes. -/
def numeralValue : List Char → Int
  | '-' :: digits => -(Nat.ofDigitChars 10 digits 0 : Int)
  | digits => (Nat.ofDigitChars 10 digits 0 : Int)

/-- The 64-bit integer that a numeral denotes; a numeral out of range is handed back. -/
def numeral64 (numeral : String) : Except String Int64 :=
  let value := numeralValue numeral.toList
  if -0x8000000000000000 ≤ value ∧ value < 0x8000000000000000 then .ok (Int64.ofInt value)
  else .error numeral

/-! ## Complaints -/

/-- What would have been accepted at the place of a complaint. -/
inductive Expected where
  /-- The text has no first token to begin with. -/
  | whole
  /-- A tree, or inside a list also its end. -/
  | item
  /-- Nothing more: one tree is complete. -/
  | nothingMore
  deriving DecidableEq, Repr

/-- The wording of what was expected. -/
def Expected.wording : Expected → String
  | .whole => "single"
  | .item => "list, number, string, or symbol"
  | .nothingMore => "EOI"

/-- A place in a text and what was expected there. -/
structure Complaint where
  offset : Nat
  expected : Expected
  deriving DecidableEq, Repr

/-- The complaint that a tree was wanted at an offset. -/
def Complaint.wanted (offset : Nat) : Complaint :=
  ⟨offset, if offset = 0 then .whole else .item⟩

/-- Why a text is not accepted. -/
inductive ReadError where
  | malformed (place : Excerpt) (expected : Expected)
  | numeralTooLarge (numeral : String)
  deriving DecidableEq, Repr

/-- The text of the error. -/
def ReadError.message : ReadError → String
  | .malformed place expected =>
      let details := place.render expected.wording
      s!"Syntax error:\n{details}"
  | .numeralTooLarge numeral => s!"Invalid number literal `{numeral}`"

/-! ## Reading tokens -/

/-- A tree whose numbers are still the numerals of the text. -/
abbrev Reading := Tree String

/-- The tree of a word: a numeral or a symbol. -/
def Reading.ofWord (spelling : String) : Reading :=
  if isNumeral spelling.toList then .number spelling else .symbol spelling

/-- Where the reader stands after a token. -/
inductive Progress where
  /-- Lists are open; the innermost comes first, its items in reverse. -/
  | inside (items : List Reading) (outer : List (List Reading))
  /-- One tree is complete. -/
  | complete (tree : Reading)
  /-- The token cannot stand here. -/
  | stuck

/-- Adds a tree to the innermost open list; without one it is the tree of the text. -/
def Progress.add (tree : Reading) : List (List Reading) → Progress
  | [] => .complete tree
  | items :: outer => .inside (tree :: items) outer

/-- Takes one token, given the open lists. -/
def Progress.step (pending : List (List Reading)) : Token → Progress
  | .opening => .inside [] pending
  | .text raw => .add (.text raw) pending
  | .word spelling => .add (.ofWord spelling) pending
  | .closing =>
      match pending with
      | [] => .stuck
      | items :: outer => .add (.list items.reverse) outer

/-- A complete tree must be followed by the end of the text. -/
def expectEnd (tree : Reading) : List Lexeme → Ending → Except Complaint Reading
  | [], .finished _ => .ok tree
  | [], .unclosed offset => .error ⟨offset, .nothingMore⟩
  | lexeme :: _, _ => .error ⟨lexeme.start, .nothingMore⟩

/-- Reads tokens while a tree is wanted, given the open lists. -/
def readTokens (pending : List (List Reading)) :
    List Lexeme → Ending → Except Complaint Reading
  | [], ending => .error (.wanted ending.offset)
  | lexeme :: rest, ending =>
      match Progress.step pending lexeme.token with
      | .inside items outer => readTokens (items :: outer) rest ending
      | .complete tree => expectEnd tree rest ending
      | .stuck => .error (.wanted lexeme.start)

/-- Reads a text as one tree, numerals unread. -/
def readTree (text : List Char) : Except Complaint Reading :=
  let (lexemes, ending) := lex text
  readTokens [] lexemes ending

/-! ## Reading programs -/

/-- Reads a text as one expression. A numeral out of range is reported only if the text is
otherwise accepted; of several, the first. -/
def readExpr (text : String) : Except ReadError Expr :=
  match readTree text.toList with
  | .error complaint =>
      .error (.malformed (.around text.toList complaint.offset) complaint.expected)
  | .ok tree =>
      match tree.mapNumbers numeral64 with
      | .error numeral => .error (.numeralTooLarge numeral)
      | .ok expr => .ok expr

/-- The text of a whole program as one expression. -/
def wrapProgram (source : String) : String := "(begin " ++ source ++ "\n)"

/-- Reads a whole program: its expressions are the operands of a `begin`. -/
def readProgram (source : String) : Except ReadError Expr := readExpr (wrapProgram source)

/-- Whether a text reads as one expression. -/
def accepts (text : String) : Bool := (readExpr text).toBool

end SexprSsa
