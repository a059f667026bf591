/-
SexprSsa.Text.Styled — texts with styles.

A styled text is a row of spans. With colours, a styled span is put between
the sequence that selects its style and the sequence that resets all styles;
a reset inside the span would end the style early, so the style is selected
again right after it. Without colours, styles are dropped.
-/

namespace SexprSsa

/-- What a span is, which decides its style. -/
inductive Style where
  | keyword
  | label
  | comment
  | symbol
  deriving DecidableEq, Repr

/-- The character that starts a control sequence. -/
def escapeSign : Char := '\x1b'

/-- The parameters that select a style. -/
def Style.parameters : Style → List Char
  | .keyword => ['1', ';', '3', '4']
  | .label => ['3', '6']
  | .comment => ['3', '2']
  | .symbol => ['3', '3']

/-- The sequence that selects a graphic rendition. -/
def rendition (parameters : List Char) : List Char := escapeSign :: '[' :: (parameters ++ ['m'])

/-- The sequence that selects a style. -/
def Style.opening (style : Style) : List Char := rendition style.parameters

/-- The sequence that resets all styles. -/
def resetSequence : List Char := rendition ['0']

/-- Selects a style again after every reset within a text. -/
def reopen (opening : List Char) : List Char → List Char
  | '\x1b' :: '[' :: '0' :: 'm' :: rest => resetSequence ++ opening ++ reopen opening rest
  | c :: rest => c :: reopen opening rest
  | [] => []

/-- A text in a style. -/
def Style.paint (style : Style) (text : List Char) : List Char :=
  style.opening ++ reopen style.opening text ++ resetSequence

/-- A piece of text with at most one style. -/
inductive Span where
  | plain (text : String)
  | styled (style : Style) (text : String)
  deriving DecidableEq, Repr

/-- A text made of spans. -/
abbrev StyledText := List Span

/-- The text of a span. -/
def Span.render (colors : Bool) : Span → String
  | .plain text => text
  | .styled style text => if colors then String.ofList (style.paint text.toList) else text

/-- The text of a row of spans. -/
def StyledText.render (colors : Bool) (spans : StyledText) : String :=
  String.join (spans.map (Span.render colors))

/-- Styled texts one after the other, separated by commas. -/
def StyledText.commaSeparated : List StyledText → StyledText
  | [] => []
  | [spans] => spans
  | spans :: rest => spans ++ .plain ", " :: commaSeparated rest

end SexprSsa
