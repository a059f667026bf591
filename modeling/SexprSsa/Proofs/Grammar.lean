/-
SexprSsa.Proofs.Grammar — the grammar of program texts.

The grammar says which texts are written forms of which trees. Its judgements
relate a text to what is left of it: `Trivia text rest` and
`Rendering number t text rest` say that the text starts with trivia, or with a
written form of `t`, and that `rest` follows. What follows matters, since a
numeral or a symbol goes on up to a delimiter.

A judgement takes the relation between numerals and numbers as a parameter, so
that one grammar serves trees of numerals, where no number is too large, and
trees of 64-bit integers (`Spelled`, `Denotes`).

The grammar is not the reader: it does not say where a token starts or ends,
only what a token may look like.
-/
import SexprSsa.Source.Reader

namespace SexprSsa.Grammar

/-! ## Characters -/

/-- The characters at which a numeral or a symbol ends. -/
def Delimiter (c : Char) : Prop := c ∈ [' ', '\t', '\r', '\n', '(', ')', '"']

/-- A numeral or a symbol may end here: the text is over or goes on with a delimiter. -/
def Bounded (rest : List Char) : Prop := ∀ c ∈ rest.head?, Delimiter c

/-! ## Trivia -/

/-- The text starts with blanks and comments. A comment runs up to a line feed or the end. -/
inductive Trivia : List Char → List Char → Prop
  | nil {rest : List Char} : Trivia rest rest
  | blank {c : Char} {text rest : List Char} :
      c ∈ [' ', '\t', '\r', '\n'] → Trivia text rest → Trivia (c :: text) rest
  | comment {body text rest : List Char} :
      (∀ c ∈ body, c ≠ '\n') → (∀ c ∈ text.head?, c = '\n') → Trivia text rest →
      Trivia ('/' :: '/' :: (body ++ text)) rest

/-! ## Atoms -/

/-- A row of decimal digits, perhaps after a minus sign, and its value. -/
inductive Numeral : List Char → Int → Prop
  | plain {digits : List Char} : digits ≠ [] → (∀ c ∈ digits, c.isDigit = true) →
      Numeral digits (Nat.ofDigitChars 10 digits 0)
  | minus {digits : List Char} : digits ≠ [] → (∀ c ∈ digits, c.isDigit = true) →
      Numeral ('-' :: digits) (-(Nat.ofDigitChars 10 digits 0 : Int))

/-- The text between the quotes of a literal: every quote and every backslash belongs to a pair
of a backslash and a character. -/
inductive Raw : List Char → Prop
  | nil : Raw []
  | plain {c : Char} {cs : List Char} : c ≠ '"' → c ≠ '\\' → Raw cs → Raw (c :: cs)
  | pair {c : Char} {cs : List Char} : Raw cs → Raw ('\\' :: c :: cs)

/-- A row of characters that no delimiter cuts and no comment hides. -/
structure Word (w : List Char) : Prop where
  ne_nil : w ≠ []
  plain : ∀ c ∈ w, ¬ Delimiter c
  noComment : ¬ ['/', '/'] <+: w

/-- A symbol is a word that is no numeral. -/
structure Symbol (w : List Char) : Prop extends Word w where
  noNumeral : ∀ v, ¬ Numeral w v

/-! ## Trees -/

variable {ν : Type}

mutual

/-- The text starts with a written form of the tree. -/
inductive Rendering (number : List Char → ν → Prop) : Tree ν → List Char → List Char → Prop
  | number {n : ν} {numeral rest : List Char} : number numeral n → Bounded rest →
      Rendering number (.number n) (numeral ++ rest) rest
  | text {raw : String} {rest : List Char} : Raw raw.toList →
      Rendering number (.text raw) ('"' :: (raw.toList ++ '"' :: rest)) rest
  | symbol {name : String} {rest : List Char} : Symbol name.toList → Bounded rest →
      Rendering number (.symbol name) (name.toList ++ rest) rest
  | list {items : List (Tree ν)} {text rest : List Char} : Renderings number items text rest →
      Rendering number (.list items) ('(' :: text) rest

/-- The text starts with written forms of the items, each after trivia, and the end of their
list. -/
inductive Renderings (number : List Char → ν → Prop) :
    List (Tree ν) → List Char → List Char → Prop
  | close {text rest : List Char} : Trivia text (')' :: rest) → Renderings number [] text rest
  | item {t : Tree ν} {items : List (Tree ν)} {text start after rest : List Char} :
      Trivia text start → Rendering number t start after → Renderings number items after rest →
      Renderings number (t :: items) text rest

end

/-- The text is a written form of the tree with trivia around it. -/
def Written (number : List Char → ν → Prop) (t : Tree ν) (text : List Char) : Prop :=
  ∃ start rest, Trivia text start ∧ Rendering number t start rest ∧ Trivia rest []

/-- A number is a numeral of any size, as it is spelled. -/
def Spelled (numeral : List Char) (n : String) : Prop :=
  numeral = n.toList ∧ ∃ v, Numeral numeral v

/-- A number is a 64-bit integer, which the numeral denotes. -/
def Denotes (numeral : List Char) (n : Int64) : Prop := Numeral numeral n.toInt

/-- The integers of 64 bits. -/
def InRange (v : Int) : Prop := -0x8000000000000000 ≤ v ∧ v < 0x8000000000000000

/-! ## Trivia and what follows -/

theorem Trivia.trans {text rest rest' : List Char} (h : Trivia text rest)
    (h' : Trivia rest rest') : Trivia text rest' := by
  induction h with
  | nil => exact h'
  | blank hc _ ih => exact .blank hc (ih h')
  | comment hbody hend _ ih => exact .comment hbody hend (ih h')

theorem bounded_nil : Bounded [] := by
  simp [Bounded]

theorem bounded_cons {c : Char} {rest : List Char} : Bounded (c :: rest) ↔ Delimiter c := by
  simp [Bounded]

/-! ## The character classes of the reader -/

theorem isBlank_iff {c : Char} : isBlank c = true ↔ c ∈ [' ', '\t', '\r', '\n'] := by
  simp [isBlank, or_assoc]

theorem isWordChar_iff {c : Char} : isWordChar c = true ↔ ¬ Delimiter c := by
  simp [isWordChar, isDelimiter, isBlank, Delimiter, and_assoc]

theorem isWordChar_eq_false_iff {c : Char} : isWordChar c = false ↔ Delimiter c := by
  rw [← Bool.not_eq_true, isWordChar_iff, Classical.not_not]

theorem startsComment_iff {text : List Char} :
    startsComment text = true ↔ ∃ rest, text = '/' :: '/' :: rest := by
  unfold startsComment
  split
  · next rest => simp
  · next h =>
    simp only [Bool.false_eq_true, false_iff, not_exists]
    exact fun rest he => h rest he

/-- A digit is no other character. -/
theorem digit_ne {c d : Char} (h : c.isDigit = true) (hd : d.isDigit = false) : c ≠ d := by
  rintro rfl
  rw [h] at hd
  cases hd

theorem not_delimiter_of_isDigit {c : Char} (h : c.isDigit = true) : ¬ Delimiter c := by
  intro hc
  simp only [Delimiter, List.mem_cons, List.not_mem_nil, or_false] at hc
  rcases hc with rfl | rfl | rfl | rfl | rfl | rfl | rfl <;> exact absurd h (by decide)

/-! ## Numerals -/

theorem isNumeral_iff {w : List Char} : isNumeral w = true ↔ ∃ v, Numeral w v := by
  constructor
  · intro h
    unfold isNumeral at h
    split at h <;>
      simp only [Bool.and_eq_true, Bool.not_eq_true', List.isEmpty_eq_false_iff, List.all_eq_true]
        at h
    · exact ⟨_, .minus h.1 h.2⟩
    · exact ⟨_, .plain h.1 h.2⟩
  · rintro ⟨v, h⟩
    cases h with
    | plain hne hdigits =>
      cases w with
      | nil => exact absurd rfl hne
      | cons c cs =>
        have hc : c ≠ '-' := digit_ne (hdigits c (by simp)) (by decide)
        unfold isNumeral
        split
        · next h => exact absurd (List.cons.inj h).1 hc
        · simpa using hdigits
    | minus hne hdigits =>
      unfold isNumeral
      simpa [hne] using hdigits

theorem Numeral.value_eq {w : List Char} {v : Int} (h : Numeral w v) : numeralValue w = v := by
  cases h with
  | plain hne hdigits =>
    cases w with
    | nil => exact absurd rfl hne
    | cons c cs =>
      have hc : c ≠ '-' := digit_ne (hdigits c (by simp)) (by decide)
      unfold numeralValue
      split
      · next h => exact absurd (List.cons.inj h).1 hc
      · rfl
  | minus => rfl

/-- A numeral is a word. -/
theorem Numeral.word {w : List Char} {v : Int} (h : Numeral w v) : Word w := by
  cases h with
  | plain hne hdigits =>
    refine ⟨hne, fun c hc => not_delimiter_of_isDigit (hdigits c hc), ?_⟩
    rintro ⟨rest, rfl⟩
    exact absurd (hdigits '/' (by simp)) (by decide)
  | minus hne hdigits =>
    refine ⟨List.cons_ne_nil _ _, fun c hc => ?_, ?_⟩
    · rcases List.mem_cons.1 hc with rfl | hc
      · simp [Delimiter]
      · exact not_delimiter_of_isDigit (hdigits c hc)
    · rintro ⟨rest, h⟩
      simp at h

end SexprSsa.Grammar
