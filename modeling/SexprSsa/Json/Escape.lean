/-
SexprSsa.Json.Escape — the text of JSON strings.

Writing escapes the quote, the backslash and the characters below the space,
five of these by letter and the others by their code; everything else is
written as it is. Reading also knows the escaped slash and any character by
its code, where a character beyond the basic plane is a pair of surrogates
and a surrogate alone denotes nothing.
-/

namespace SexprSsa.Json

/-! ## Writing -/

/-- A lower-case hexadecimal digit. -/
def hexDigit (n : Nat) : Char := Nat.digitChar (n % 16)

/-- The spelling of one character inside quotes. -/
def escapeChar (c : Char) : List Char :=
  if c = '"' then ['\\', '"']
  else if c = '\\' then ['\\', '\\']
  else if c = '\x08' then ['\\', 'b']
  else if c = '\x0c' then ['\\', 'f']
  else if c = '\n' then ['\\', 'n']
  else if c = '\r' then ['\\', 'r']
  else if c = '\t' then ['\\', 't']
  else if c.toNat < 32 then ['\\', 'u', '0', '0', hexDigit (c.toNat / 16), hexDigit c.toNat]
  else [c]

/-- The spelling of a text inside quotes. -/
def escape (s : String) : String := String.ofList (s.toList.flatMap escapeChar)

/-! ## Reading -/

/-- The value of a hexadecimal digit of either case. -/
def hexValue? (c : Char) : Option Nat :=
  if c.isDigit then some (c.toNat - '0'.toNat)
  else if 'a' ≤ c ∧ c ≤ 'f' then some (c.toNat - 'a'.toNat + 10)
  else if 'A' ≤ c ∧ c ≤ 'F' then some (c.toNat - 'A'.toNat + 10)
  else none

/-- The value of four hexadecimal digits. -/
def codeUnit? (a b c d : Char) : Option Nat := do
  return (((← hexValue? a) * 16 + (← hexValue? b)) * 16 + (← hexValue? c)) * 16 + (← hexValue? d)

/-- The first half of a surrogate pair. -/
def isHighSurrogate (n : Nat) : Bool := 0xD800 ≤ n && n < 0xDC00

/-- The second half of a surrogate pair. -/
def isLowSurrogate (n : Nat) : Bool := 0xDC00 ≤ n && n < 0xE000

/-- The character that a surrogate pair denotes. -/
def ofSurrogates (high low : Nat) : Char :=
  Char.ofNat (0x10000 + (high - 0xD800) * 0x400 + (low - 0xDC00))

/-- The character that a one-letter escape denotes. -/
def escapeLetter? : Char → Option Char
  | '"' => some '"'
  | '\\' => some '\\'
  | '/' => some '/'
  | 'b' => some '\x08'
  | 'f' => some '\x0c'
  | 'n' => some '\n'
  | 'r' => some '\r'
  | 't' => some '\t'
  | _ => none

/-- Decodes the characters between quotes. -/
def unescapeChars : List Char → Option (List Char)
  | [] => some []
  | '\\' :: 'u' :: a :: b :: c :: d :: rest => do
      let unit ← codeUnit? a b c d
      if isHighSurrogate unit then
        match rest with
        | '\\' :: 'u' :: e :: f :: g :: h :: rest' =>
            let low ← codeUnit? e f g h
            if isLowSurrogate low then
              return ofSurrogates unit low :: (← unescapeChars rest')
            else none
        | _ => none
      else if isLowSurrogate unit then none
      else return Char.ofNat unit :: (← unescapeChars rest)
  | '\\' :: c :: rest => do return (← escapeLetter? c) :: (← unescapeChars rest)
  | c :: rest => do return c :: (← unescapeChars rest)

/-- The text that the characters between quotes denote. -/
def unescape? (raw : String) : Option String := (unescapeChars raw.toList).map String.ofList

end SexprSsa.Json
