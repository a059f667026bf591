/-
SexprSsa.Json.Reader — reading JSON texts.

The reader is strict: no comments, no trailing commas, no leading zeros, no
control characters inside strings, nothing but blanks after the value. It
checks the form of escapes but leaves strings undecoded. The recursion is
bounded by the length of the text, which no value can exhaust, since each
step down goes past at least one character.
-/
import SexprSsa.Json.Basic
import SexprSsa.Json.Escape

namespace SexprSsa.Json

/-- Space, tab, line feed or carriage return. -/
def isBlank (c : Char) : Bool := c == ' ' || c == '\t' || c == '\n' || c == '\r'

/-- Drops leading blanks. -/
def skipBlanks (text : List Char) : List Char := text.dropWhile isBlank

/-- Splits the text after an opening quote at the closing one, and checks every escape. -/
def splitString : List Char → Option (List Char × List Char)
  | [] => none
  | '"' :: rest => some ([], rest)
  | '\\' :: 'u' :: a :: b :: c :: d :: rest =>
      if (codeUnit? a b c d).isSome then
        (splitString rest).map fun (raw, rest) => ('\\' :: 'u' :: a :: b :: c :: d :: raw, rest)
      else none
  | '\\' :: c :: rest =>
      if (escapeLetter? c).isSome then
        (splitString rest).map fun (raw, rest) => ('\\' :: c :: raw, rest)
      else none
  | c :: rest =>
      if c.toNat < 32 then none
      else (splitString rest).map fun (raw, rest) => (c :: raw, rest)

/-- Splits a text after its leading digits. -/
def splitDigits (text : List Char) : List Char × List Char :=
  (text.takeWhile Char.isDigit, text.dropWhile Char.isDigit)

/-- An optional fraction: a point and at least one digit. -/
def fraction? : List Char → Option (List Char × List Char)
  | '.' :: rest =>
      match splitDigits rest with
      | ([], _) => none
      | (digits, rest) => some ('.' :: digits, rest)
  | rest => some ([], rest)

/-- An optional sign. -/
def splitSign : List Char → List Char × List Char
  | '+' :: rest => (['+'], rest)
  | '-' :: rest => (['-'], rest)
  | rest => ([], rest)

/-- An optional exponent: the letter, an optional sign and at least one digit. -/
def exponent? : List Char → Option (List Char × List Char)
  | c :: rest =>
      if c = 'e' ∨ c = 'E' then
        let (sign, rest) := splitSign rest
        match splitDigits rest with
        | ([], _) => none
        | (digits, rest) => some (c :: (sign ++ digits), rest)
      else some ([], c :: rest)
  | [] => some ([], [])

/-- The digits before the point: a zero alone, or digits that start with another. -/
def whole? (text : List Char) : Option (List Char × List Char) :=
  match splitDigits text with
  | ([], _) => none
  | ('0' :: _ :: _, _) => none
  | (digits, rest) => some (digits, rest)

/-- A number. -/
def number? (text : List Char) : Option (Json × List Char) := do
  let (negative, rest) := match text with
    | '-' :: rest => (true, rest)
    | rest => (false, rest)
  let (digits, rest) ← whole? rest
  let (fraction, rest) ← fraction? rest
  let (exponent, rest) ← exponent? rest
  let magnitude := Nat.ofDigitChars 10 digits 0
  if fraction = [] ∧ exponent = [] ∧ ¬ (negative = true ∧ digits = ['0']) then
    return (.integer (if negative then -(magnitude : Int) else magnitude), rest)
  else
    let sign := if negative then ['-'] else []
    return (.inexact (String.ofList (sign ++ digits ++ fraction ++ exponent)), rest)

/-- A literal name. -/
def literal? (text : List Char) : Option (Json × List Char) :=
  match text with
  | 'n' :: 'u' :: 'l' :: 'l' :: rest => some (.null, rest)
  | 't' :: 'r' :: 'u' :: 'e' :: rest => some (.bool true, rest)
  | 'f' :: 'a' :: 'l' :: 's' :: 'e' :: rest => some (.bool false, rest)
  | _ => none

mutual

/-- A value with the blanks before it. -/
def value? : Nat → List Char → Option (Json × List Char)
  | 0, _ => none
  | fuel + 1, text =>
      match skipBlanks text with
      | '"' :: rest => (splitString rest).map fun (raw, rest) => (.string (String.ofList raw), rest)
      | '[' :: rest =>
          match skipBlanks rest with
          | ']' :: rest => some (.array [], rest)
          | rest => (items? fuel rest).map fun (items, rest) => (.array items, rest)
      | '\x7b' :: rest =>
          match skipBlanks rest with
          | '\x7d' :: rest => some (.object [], rest)
          | rest => (members? fuel rest).map fun (members, rest) => (.object members, rest)
      | rest => (literal? rest).or (number? rest)

/-- The items of an array up to its closing bracket; there is at least one. -/
def items? : Nat → List Char → Option (List Json × List Char)
  | 0, _ => none
  | fuel + 1, text => do
      let (item, rest) ← value? fuel text
      match skipBlanks rest with
      | ']' :: rest => return ([item], rest)
      | ',' :: rest =>
          let (items, rest) ← items? fuel rest
          return (item :: items, rest)
      | _ => none

/-- The members of an object up to its closing brace; there is at least one. -/
def members? : Nat → List Char → Option (List (String × Json) × List Char)
  | 0, _ => none
  | fuel + 1, text => do
      match skipBlanks text with
      | '"' :: rest =>
          let (raw, rest) ← splitString rest
          match skipBlanks rest with
          | ':' :: rest =>
              let (value, rest) ← value? fuel rest
              match skipBlanks rest with
              | '\x7d' :: rest => return ([(String.ofList raw, value)], rest)
              | ',' :: rest =>
                  let (members, rest) ← members? fuel rest
                  return ((String.ofList raw, value) :: members, rest)
              | _ => none
          | _ => none
      | _ => none

end

/-- Reads a text as one JSON value. -/
def parse? (text : String) : Option Json :=
  let chars := text.toList
  match value? (chars.length + 1) chars with
  | some (value, rest) => if (skipBlanks rest).isEmpty then some value else none
  | none => none

end SexprSsa.Json
