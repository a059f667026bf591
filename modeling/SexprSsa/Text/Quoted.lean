/-
SexprSsa.Text.Quoted — texts in quotes, as listings show them.

The quote and the backslash are escaped by a backslash, zero, tab, line feed
and carriage return by a letter, and a character without a shape of its own
by its code in hexadecimal. What is left can be told apart on a screen, and
no control character gets out.
-/
import SexprSsa.Text.Unprintable

namespace SexprSsa

/-- The spelling of one character inside quotes. -/
def quotedChar (c : Char) : List Char :=
  if c = '\x00' then ['\\', '0']
  else if c = '\t' then ['\\', 't']
  else if c = '\r' then ['\\', 'r']
  else if c = '\n' then ['\\', 'n']
  else if c = '\\' then ['\\', '\\']
  else if c = '"' then ['\\', '"']
  else if isUnprintable c then
    '\\' :: 'u' :: '\x7b' :: (Nat.toDigits 16 c.toNat ++ ['\x7d'])
  else [c]

/-- A text in quotes. -/
def quoted (s : String) : String :=
  String.ofList ('"' :: (s.toList.flatMap quotedChar ++ ['"']))

end SexprSsa
