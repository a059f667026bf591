/-
SexprSsa.Source.Token — the tokens of a program text.

A text is a row of tokens with trivia around them. Trivia are blanks (space,
tab, carriage return, line feed) and comments, which start with two slashes
where a token may start and run to the end of their line. A token is a
parenthesis, a closed string literal, or a word: a run of characters other
than blanks, parentheses and quotes that is as long as possible. So two
slashes inside a word belong to the word.

`lex` gives every token the offset at which it starts, and says whether the
text ran out after the last token or an unclosed string literal was met.
-/

namespace SexprSsa

/-! ## Character classes -/

/-- Space, tab, carriage return or line feed. -/
def isBlank (c : Char) : Bool := c == ' ' || c == '\t' || c == '\r' || c == '\n'

/-- A character that ends a word. -/
def isDelimiter (c : Char) : Bool := isBlank c || c == '(' || c == ')' || c == '"'

/-- A character of a word. -/
def isWordChar (c : Char) : Bool := !isDelimiter c

/-! ## Tokens -/

/-- A token, without its place. -/
inductive Token where
  | opening
  | closing
  | text (raw : String)
  | word (spelling : String)
  deriving DecidableEq, Repr

/-- A token and the offset of its first character. -/
structure Lexeme where
  token : Token
  start : Nat
  deriving DecidableEq, Repr

/-- What follows the last token of a text: its end, or a string literal without its closing
quote, at the given offset. -/
inductive Ending where
  | finished (offset : Nat)
  | unclosed (offset : Nat)
  deriving DecidableEq, Repr

/-- The offset of what follows the last token. -/
def Ending.offset : Ending → Nat
  | .finished offset | .unclosed offset => offset

/-- Splits the text after an opening quote at the closing one. A backslash takes the character
after it along, whatever that is, so an escaped quote does not close the literal. -/
def splitQuoted : List Char → Option (List Char × List Char)
  | [] => none
  | '"' :: rest => some ([], rest)
  | '\\' :: c :: rest => (splitQuoted rest).map fun (raw, rest) => ('\\' :: c :: raw, rest)
  | c :: rest => (splitQuoted rest).map fun (raw, rest) => (c :: raw, rest)

theorem length_splitQuoted {cs raw rest : List Char} (h : splitQuoted cs = some (raw, rest)) :
    raw.length + rest.length + 1 = cs.length := by
  fun_induction splitQuoted cs generalizing raw rest with
  | case1 => simp at h
  | case2 rest' => simp at h; obtain ⟨rfl, rfl⟩ := h; simp
  | case3 c tail ih =>
    obtain ⟨⟨raw', rest'⟩, hs, he⟩ := Option.map_eq_some_iff.1 h
    simp at he
    obtain ⟨rfl, rfl⟩ := he
    have := ih hs
    simp; omega
  | case4 c tail _ _ ih =>
    obtain ⟨⟨raw', rest'⟩, hs, he⟩ := Option.map_eq_some_iff.1 h
    simp at he
    obtain ⟨rfl, rfl⟩ := he
    have := ih hs
    simp; omega

theorem length_dropWhile_le (p : Char → Bool) (cs : List Char) :
    (cs.dropWhile p).length ≤ cs.length :=
  (List.dropWhile_sublist p).length_le

/-- Whether a comment starts here. -/
def startsComment : List Char → Bool
  | '/' :: '/' :: _ => true
  | _ => false

/-- The characters of a comment: everything up to the line feed. -/
def inComment (c : Char) : Bool := c != '\n'

/-- The tokens of a text that starts at the given offset, and what follows the last of them. -/
def lexFrom (offset : Nat) (text : List Char) : List Lexeme × Ending :=
  match text with
  | [] => ([], .finished offset)
  | c :: rest =>
    if isBlank c then
      lexFrom (offset + 1) rest
    else if startsComment (c :: rest) then
      lexFrom (offset + 1 + (rest.takeWhile inComment).length) (rest.dropWhile inComment)
    else if c = '(' then
      let (lexemes, ending) := lexFrom (offset + 1) rest
      (⟨.opening, offset⟩ :: lexemes, ending)
    else if c = ')' then
      let (lexemes, ending) := lexFrom (offset + 1) rest
      (⟨.closing, offset⟩ :: lexemes, ending)
    else if c = '"' then
      match _closed : splitQuoted rest with
      | none => ([], .unclosed offset)
      | some (raw, rest') =>
        let (lexemes, ending) := lexFrom (offset + raw.length + 2) rest'
        (⟨.text (String.ofList raw), offset⟩ :: lexemes, ending)
    else
      let more := rest.takeWhile isWordChar
      let (lexemes, ending) := lexFrom (offset + 1 + more.length) (rest.dropWhile isWordChar)
      (⟨.word (String.ofList (c :: more)), offset⟩ :: lexemes, ending)
termination_by text.length
decreasing_by
  · simp
  · have := length_dropWhile_le inComment rest; simp; omega
  · simp
  · simp
  · have := length_splitQuoted _closed; simp; omega
  · have := length_dropWhile_le isWordChar rest; simp; omega

/-- The tokens of a text. -/
def lex (text : List Char) : List Lexeme × Ending := lexFrom 0 text

end SexprSsa
