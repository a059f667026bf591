/-
SexprSsa.Source.Escape — the meaning of a string literal.

A literal's text is kept as written until its meaning is wanted. A backslash
starts an escape: `\n`, `\t`, `\r` and `\0` are control characters, `\\` and
`\"` the character itself. Any other escape stands for itself, backslash
included, and so does a backslash at the very end.
-/

namespace SexprSsa

/-- The character that an escape letter stands for. -/
def escapeLetter? : Char → Option Char
  | 'n' => some '\n'
  | 't' => some '\t'
  | 'r' => some '\r'
  | '0' => some '\x00'
  | '\\' => some '\\'
  | '"' => some '"'
  | _ => none

/-- Decodes the escapes of a literal's characters. -/
def unescapeChars : List Char → List Char
  | '\\' :: c :: rest =>
      match escapeLetter? c with
      | some meant => meant :: unescapeChars rest
      | none => '\\' :: c :: unescapeChars rest
  | c :: rest => c :: unescapeChars rest
  | [] => []

/-- The text that a string literal denotes. -/
def unescape (raw : String) : String := String.ofList (unescapeChars raw.toList)

end SexprSsa
