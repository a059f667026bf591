/-
SexprSsa.Proofs.TokenRow — texts as rows of tokens.

`TokenRow tokens text` says that a text consists of the given tokens, with
trivia between them and at both ends. It is a grammar too: where a token ends
is said by what the token looks like and by what follows it.

Main statement: `lex_finished_iff`, the lexer finds the tokens of a text
exactly if it is a row of them. So a text has at most one row of tokens.
-/
import SexprSsa.Proofs.Grammar
import Mathlib.Data.List.TakeWhile

namespace SexprSsa.Grammar

/-! ## Tokens and their rows -/

/-- The text starts with the token. -/
inductive Spells : Token → List Char → List Char → Prop
  | opening {rest : List Char} : Spells .opening ('(' :: rest) rest
  | closing {rest : List Char} : Spells .closing (')' :: rest) rest
  | text {raw : String} {rest : List Char} : Raw raw.toList →
      Spells (.text raw) ('"' :: (raw.toList ++ '"' :: rest)) rest
  | word {spelling : String} {rest : List Char} : Word spelling.toList → Bounded rest →
      Spells (.word spelling) (spelling.toList ++ rest) rest

/-- The text consists of the tokens, with trivia around them. -/
inductive TokenRow : List Token → List Char → Prop
  | done {text : List Char} : Trivia text [] → TokenRow [] text
  | token {t : Token} {tokens : List Token} {text start rest : List Char} :
      Trivia text start → Spells t start rest → TokenRow tokens rest → TokenRow (t :: tokens) text

/-- The text starts with the tokens, with trivia around them, and `rest` is left. -/
inductive Lead : List Token → List Char → List Char → Prop
  | trivia {text rest : List Char} : Trivia text rest → Lead [] text rest
  | token {t : Token} {tokens : List Token} {text start after rest : List Char} :
      Trivia text start → Spells t start after → Lead tokens after rest →
      Lead (t :: tokens) text rest

/-- A text whose tokens leave nothing is a row of them. -/
theorem lead_nil_iff {tokens : List Token} {text : List Char} :
    Lead tokens text [] ↔ TokenRow tokens text := by
  constructor
  · intro h
    generalize hrest : ([] : List Char) = rest at h
    induction h with
    | trivia h => exact .done (hrest ▸ h)
    | token hstart ht _ ih => exact .token hstart ht (ih hrest)
  · intro h
    induction h with
    | done hend => exact .trivia hend
    | token hstart ht _ ih => exact .token hstart ht ih

/-- More trivia may stand at the start. -/
theorem Lead.prepend {tokens : List Token} {text start rest : List Char} (h : Trivia text start)
    (hlead : Lead tokens start rest) : Lead tokens text rest := by
  cases hlead with
  | trivia hrest => exact .trivia (h.trans hrest)
  | token hstart ht hlead => exact .token (h.trans hstart) ht hlead

/-- More trivia may stand at the start. -/
theorem TokenRow.trivia {tokens : List Token} {text rest : List Char} (h : Trivia text rest)
    (hrow : TokenRow tokens rest) : TokenRow tokens text := by
  cases hrow with
  | done hend => exact .done (h.trans hend)
  | token hstart ht hrow => exact .token (h.trans hstart) ht hrow

/-! ## Rows of characters -/

/-- A maximal run of characters ends where one of another kind, or nothing, follows. -/
theorem span_append {p : Char → Bool} {run rest : List Char} (hrun : ∀ c ∈ run, p c = true)
    (hrest : ∀ c ∈ rest.head?, p c = false) :
    (run ++ rest).takeWhile p = run ∧ (run ++ rest).dropWhile p = rest := by
  have hnil : rest.takeWhile p = [] ∧ rest.dropWhile p = rest := by
    cases rest with
    | nil => simp
    | cons c cs =>
      have hc : p c = false := hrest c (by simp)
      simp [hc]
  rw [List.takeWhile_append_of_pos hrun, List.dropWhile_append_of_pos hrun, hnil.1, hnil.2]
  simp

/-- What a maximal run leaves over starts with another kind of character. -/
theorem head?_dropWhile {p : Char → Bool} (text : List Char) :
    ∀ c ∈ (text.dropWhile p).head?, p c = false := by
  intro c hc
  have hhead := List.head?_dropWhile_not p text
  rw [Option.mem_def.1 hc] at hhead
  exact hhead

/-- The closing quote of a literal is the first that is not part of a pair. -/
theorem splitQuoted_append {raw : List Char} (h : Raw raw) (rest : List Char) :
    splitQuoted (raw ++ '"' :: rest) = some (raw, rest) := by
  induction h with
  | nil => simp [splitQuoted]
  | @plain c cs hquote hslash _ ih =>
    rw [List.cons_append, splitQuoted, ih]
    · rfl
    · rintro rfl
      exact hquote rfl
    · rintro d tail rfl
      exact absurd rfl hslash
  | @pair c cs _ ih =>
    rw [List.cons_append, List.cons_append, splitQuoted, ih]
    rfl

theorem splitQuoted_eq {text raw rest : List Char} (h : splitQuoted text = some (raw, rest)) :
    Raw raw ∧ text = raw ++ '"' :: rest := by
  fun_induction splitQuoted text generalizing raw rest with
  | case1 => cases h
  | case2 tail =>
    cases h
    exact ⟨.nil, rfl⟩
  | case3 c tail ih =>
    obtain ⟨⟨raw', rest'⟩, hsplit, he⟩ := Option.map_eq_some_iff.1 h
    cases he
    obtain ⟨hraw, rfl⟩ := ih hsplit
    exact ⟨.pair hraw, rfl⟩
  | case4 c tail hquote hpair ih =>
    obtain ⟨⟨raw', rest'⟩, hsplit, he⟩ := Option.map_eq_some_iff.1 h
    cases he
    obtain ⟨hraw, rfl⟩ := ih hsplit
    refine ⟨.plain (fun hc => hquote hc) ?_ hraw, rfl⟩
    rintro rfl
    obtain ⟨d, more, he⟩ : ∃ d more, raw' ++ '"' :: rest = d :: more :=
      List.exists_cons_of_ne_nil (by simp)
    exact hpair d more rfl he

/-! ## Words in a text -/

/-- The characters of a word are those up to where it may end. -/
theorem Word.span {c : Char} {cs rest : List Char} (h : Word (c :: cs)) (hrest : Bounded rest) :
    (cs ++ rest).takeWhile isWordChar = cs ∧ (cs ++ rest).dropWhile isWordChar = rest :=
  span_append (fun d hd => isWordChar_iff.2 (h.plain d (by simp [hd])))
    fun d hd => isWordChar_eq_false_iff.2 (hrest d hd)

/-- No comment starts with a word: a slash at its end is not followed by another. -/
theorem Word.not_startsComment {w rest : List Char} (h : Word w) (hrest : Bounded rest) :
    ¬ startsComment (w ++ rest) = true := by
  rw [startsComment_iff]
  rintro ⟨more, he⟩
  rcases w with _ | ⟨c, _ | ⟨d, cs⟩⟩
  · exact h.ne_nil rfl
  · obtain ⟨rfl, htail⟩ := List.cons.inj he
    have hslash : Delimiter '/' := hrest '/' (by simp [show rest = '/' :: more from htail])
    simp [Delimiter] at hslash
  · obtain ⟨rfl, htail⟩ := List.cons.inj he
    obtain ⟨rfl, -⟩ := List.cons.inj htail
    exact h.noComment (by simp)

theorem Word.of_all {w : List Char} (hne : w ≠ []) (hplain : w.all isWordChar = true)
    (hcomment : ¬ ['/', '/'] <+: w) : Word w :=
  ⟨hne, fun c hc => isWordChar_iff.1 (List.all_eq_true.1 hplain c hc), hcomment⟩

/-- The characters up to a delimiter are a word unless a comment starts there. -/
theorem Word.of_takeWhile {c : Char} {rest : List Char} (hc : isWordChar c = true)
    (hcomment : ¬ startsComment (c :: rest) = true) :
    Word (c :: rest.takeWhile isWordChar) where
  ne_nil := List.cons_ne_nil _ _
  plain d hd := by
    rcases List.mem_cons.1 hd with rfl | hd
    · exact isWordChar_iff.1 hc
    · exact isWordChar_iff.1 (List.mem_takeWhile_imp hd)
  noComment := by
    rintro ⟨tail, he⟩
    refine hcomment (startsComment_iff.2 ⟨tail ++ rest.dropWhile isWordChar, ?_⟩)
    have hrest : c :: rest = (c :: rest.takeWhile isWordChar) ++ rest.dropWhile isWordChar := by
      rw [List.cons_append, List.takeWhile_append_dropWhile]
    rw [hrest, ← he]
    simp

theorem bounded_dropWhile (text : List Char) : Bounded (text.dropWhile isWordChar) :=
  fun c hc => isWordChar_eq_false_iff.1 (head?_dropWhile text c hc)

theorem Spells.text_ofList {raw : List Char} (h : Raw raw) (rest : List Char) :
    Spells (.text (String.ofList raw)) ('"' :: (raw ++ '"' :: rest)) rest := by
  have htext : Spells (.text (String.ofList raw))
    ('"' :: ((String.ofList raw).toList ++ '"' :: rest)) rest := .text (by simpa using h)
  rwa [String.toList_ofList] at htext

theorem Spells.word_ofList {w rest : List Char} (h : Word w) (hrest : Bounded rest) :
    Spells (.word (String.ofList w)) (w ++ rest) rest := by
  have hword : Spells (.word (String.ofList w)) ((String.ofList w).toList ++ rest) rest :=
    .word (by simpa using h) hrest
  rwa [String.toList_ofList] at hword

/-! ## The lexer finds every row -/

/-- Trivia shift the offsets of the tokens and do nothing else. -/
theorem lexFrom_trivia {text rest : List Char} (h : Trivia text rest) (offset : Nat) :
    ∃ offset', lexFrom offset text = lexFrom offset' rest := by
  induction h generalizing offset with
  | nil => exact ⟨offset, rfl⟩
  | @blank c text rest hc _ ih =>
    rw [lexFrom, if_pos (isBlank_iff.2 hc)]
    exact ih (offset + 1)
  | @comment body text rest hbody hend _ ih =>
    have hspan : (('/' :: body) ++ text).dropWhile inComment = text :=
      (span_append (by simpa [inComment] using hbody) (by simpa [inComment] using hend)).2
    rw [lexFrom, if_neg (by decide), if_pos (startsComment_iff.2 ⟨_, rfl⟩), ← List.cons_append,
      hspan]
    exact ih _

/-- A token at the start of a text is the first that the lexer finds. -/
theorem lexFrom_spells {t : Token} {text rest : List Char} (h : Spells t text rest)
    (offset : Nat) : ∃ offset', lexFrom offset text =
      (⟨t, offset⟩ :: (lexFrom offset' rest).1, (lexFrom offset' rest).2) := by
  cases h with
  | opening =>
    refine ⟨offset + 1, ?_⟩
    rw [lexFrom, if_neg (by decide), if_neg (by simp [startsComment]), if_pos rfl]
  | closing =>
    refine ⟨offset + 1, ?_⟩
    rw [lexFrom, if_neg (by decide), if_neg (by simp [startsComment]), if_neg (by decide),
      if_pos rfl]
  | @text raw _ hraw =>
    refine ⟨offset + raw.toList.length + 2, ?_⟩
    rw [lexFrom, if_neg (by decide), if_neg (by simp [startsComment]), if_neg (by decide),
      if_neg (by decide), if_pos rfl]
    split
    · next hnone => simp [splitQuoted_append hraw] at hnone
    · next raw' rest' hsome =>
      rw [splitQuoted_append hraw] at hsome
      cases hsome
      simp
  | @word spelling _ hword hrest =>
    cases hspelling : spelling.toList with
    | nil => exact absurd hspelling hword.ne_nil
    | cons c cs =>
      rw [hspelling] at hword
      have hc : ¬ Delimiter c := hword.plain c (by simp)
      simp only [Delimiter, List.mem_cons, List.not_mem_nil, or_false, not_or] at hc
      have hcomment : ¬ startsComment (c :: (cs ++ rest)) = true := hword.not_startsComment hrest
      obtain ⟨htake, hdrop⟩ := hword.span hrest
      refine ⟨offset + 1 + cs.length, ?_⟩
      rw [List.cons_append, lexFrom, if_neg (by simp [isBlank, hc]), if_neg hcomment,
        if_neg hc.2.2.2.2.1, if_neg hc.2.2.2.2.2.1, if_neg hc.2.2.2.2.2.2]
      simp only [htake, hdrop, ← hspelling, String.ofList_toList]

/-- The tokens that a text starts with are the first that the lexer finds; it goes on with what
they leave. -/
theorem Lead.lexFrom {tokens : List Token} {text rest : List Char} (h : Lead tokens text rest)
    (offset : Nat) : ∃ lexemes offset', lexFrom offset text =
      (lexemes ++ (lexFrom offset' rest).1, (lexFrom offset' rest).2) ∧
      lexemes.map Lexeme.token = tokens := by
  induction h generalizing offset with
  | trivia h =>
    obtain ⟨offset', hlex⟩ := lexFrom_trivia h offset
    exact ⟨[], offset', hlex, rfl⟩
  | token hstart ht _ ih =>
    obtain ⟨offset₁, h₁⟩ := lexFrom_trivia hstart offset
    obtain ⟨offset₂, h₂⟩ := lexFrom_spells ht offset₁
    obtain ⟨lexemes, offset₃, h₃, rfl⟩ := ih offset₂
    refine ⟨⟨_, offset₁⟩ :: lexemes, offset₃, ?_, rfl⟩
    rw [h₁, h₂, h₃]
    rfl

theorem TokenRow.lexFrom {tokens : List Token} {text : List Char} (h : TokenRow tokens text)
    (offset : Nat) : ∃ lexemes last, lexFrom offset text = (lexemes, .finished last) ∧
      lexemes.map Lexeme.token = tokens := by
  obtain ⟨lexemes, last, hlex, htokens⟩ := (lead_nil_iff.2 h).lexFrom offset
  have hnil : SexprSsa.lexFrom last [] = ([], .finished last) := by rw [SexprSsa.lexFrom]
  rw [hnil, List.append_nil] at hlex
  exact ⟨lexemes, last, hlex, htokens⟩

/-! ## The lexer finds nothing else -/

/-- The text starts with a literal that is never closed. -/
def Unclosed (text : List Char) : Prop :=
  ∃ more, text = '"' :: more ∧ ∀ raw rest, Raw raw → more ≠ raw ++ '"' :: rest

/-- The offset at which the tokens that are still to come start. -/
def startOf : List Lexeme → Ending → Nat
  | [], ending => ending.offset
  | lexeme :: _, _ => lexeme.start

/-- What is left of a text starts with the tokens that are still to come. -/
inductive Next : List Lexeme → Ending → List Char → Prop
  | finished {last : Nat} : Next [] (.finished last) []
  | unclosed {quote : Nat} {rest : List Char} : Unclosed rest → Next [] (.unclosed quote) rest
  | token {lexeme : Lexeme} {lexemes : List Lexeme} {ending : Ending} {rest after : List Char} :
      Spells lexeme.token rest after → Next (lexeme :: lexemes) ending rest

/-- Wherever the tokens of a text are cut, the text starts with those before the cut; what they
leave starts at the offset of the next, and with it. -/
def Located (offset : Nat) (text : List Char) (lexemes : List Lexeme) (ending : Ending) : Prop :=
  ∀ seen coming : List Lexeme, lexemes = seen ++ coming →
    ∃ rest, Lead (seen.map Lexeme.token) text rest ∧
      startOf coming ending + rest.length = offset + text.length ∧ Next coming ending rest

theorem Located.trivia {offset offset' : Nat} {text start : List Char} {lexemes : List Lexeme}
    {ending : Ending} (h : Trivia text start)
    (hoffset : offset' + start.length = offset + text.length)
    (hlocated : Located offset' start lexemes ending) : Located offset text lexemes ending := by
  intro seen coming hcut
  obtain ⟨rest, hlead, hstart, hnext⟩ := hlocated seen coming hcut
  exact ⟨rest, hlead.prepend h, by omega, hnext⟩

theorem Located.token {offset offset' : Nat} {t : Token} {text after : List Char}
    {lexemes : List Lexeme} {ending : Ending} (h : Spells t text after)
    (hoffset : offset' + after.length = offset + text.length)
    (hlocated : Located offset' after lexemes ending) :
    Located offset text (⟨t, offset⟩ :: lexemes) ending := by
  intro seen coming hcut
  cases seen with
  | nil =>
    obtain rfl : _ = coming := hcut
    exact ⟨text, .trivia .nil, rfl, .token h⟩
  | cons lexeme seen =>
    obtain ⟨rfl, htail⟩ := List.cons.inj hcut
    obtain ⟨rest, hlead, hstart, hnext⟩ := hlocated seen coming htail
    exact ⟨rest, .token .nil h hlead, by omega, hnext⟩

theorem Located.last {offset : Nat} {text : List Char} {ending : Ending}
    (hoffset : ending.offset = offset) (h : Next [] ending text) :
    Located offset text [] ending := by
  intro seen coming hcut
  obtain ⟨rfl, rfl⟩ := List.append_eq_nil_iff.1 hcut.symm
  exact ⟨text, .trivia .nil, by simp only [startOf, hoffset], h⟩

/-- A row of characters and what follows it make up the text. -/
theorem length_span (p : Char → Bool) (text : List Char) :
    (text.takeWhile p).length + (text.dropWhile p).length = text.length := by
  rw [← List.length_append, List.takeWhile_append_dropWhile]

/-- The tokens that the lexer finds stand in the text where it finds them. -/
theorem lexFrom_located {offset : Nat} {text : List Char} {lexemes : List Lexeme}
    {ending : Ending} (h : lexFrom offset text = (lexemes, ending)) :
    Located offset text lexemes ending := by
  fun_induction lexFrom offset text generalizing lexemes ending with
  | case1 =>
    cases h
    exact .last rfl .finished
  | case2 offset c rest hblank ih =>
    exact .trivia (.blank (isBlank_iff.1 hblank) .nil) (by simp; omega) (ih h)
  | case3 offset c rest _ hcomment ih =>
    obtain ⟨more, he⟩ := startsComment_iff.1 hcomment
    obtain ⟨rfl, rfl⟩ := List.cons.inj he
    have htrivia : Trivia ('/' :: '/' :: (more.takeWhile inComment ++ more.dropWhile inComment))
        (more.dropWhile inComment) := .comment
      (fun d hd => by simpa [inComment] using List.mem_takeWhile_imp hd)
      (fun d hd => by simpa [inComment] using head?_dropWhile more d hd) .nil
    rw [List.takeWhile_append_dropWhile] at htrivia
    have hlength := length_span inComment more
    have htake : ('/' :: more).takeWhile inComment = '/' :: more.takeWhile inComment := rfl
    have hdrop : ('/' :: more).dropWhile inComment = more.dropWhile inComment := rfl
    rw [htake, hdrop] at ih h
    exact .trivia htrivia (by simp only [List.length_cons]; omega) (ih h)
  | case4 offset rest lexemes' ending' hlex _ _ ih =>
    cases h
    exact .token .opening (by simp; omega) (ih hlex)
  | case5 offset rest lexemes' ending' hlex _ _ _ ih =>
    cases h
    exact .token .closing (by simp; omega) (ih hlex)
  | case6 offset rest hsplit =>
    cases h
    refine .last rfl (.unclosed ⟨rest, rfl, fun raw after hraw he => ?_⟩)
    rw [he, splitQuoted_append hraw] at hsplit
    cases hsplit
  | case7 offset rest raw rest' hsplit lexemes' ending' hlex _ _ _ _ ih =>
    cases h
    have hlength := length_splitQuoted hsplit
    obtain ⟨hraw, rfl⟩ := splitQuoted_eq hsplit
    exact .token (.text_ofList hraw rest') (by simp; omega) (ih hlex)
  | case8 offset c rest hblank hcomment hopening hclosing hquote more lexemes' ending' hlex =>
    rename_i ih
    cases h
    have hc : isWordChar c = true := by
      simp [isWordChar, isDelimiter, hblank, hopening, hclosing, hquote]
    have hword := Spells.word_ofList (.of_takeWhile hc hcomment) (bounded_dropWhile rest)
    rw [List.cons_append, List.takeWhile_append_dropWhile] at hword
    have hlength := length_span isWordChar rest
    exact .token hword (by simp only [List.length_cons, more]; omega) (ih hlex)

/-- The tokens of a text that the lexer comes to the end of are a row of the text. -/
theorem tokenRow_of_lexFrom {offset : Nat} {text : List Char} {lexemes : List Lexeme} {last : Nat}
    (h : lexFrom offset text = (lexemes, .finished last)) :
    TokenRow (lexemes.map Lexeme.token) text := by
  obtain ⟨rest, hlead, -, hnext⟩ := lexFrom_located h lexemes [] (List.append_nil lexemes).symm
  cases hnext
  exact lead_nil_iff.1 hlead

/-- The lexer comes to the end of a text exactly if the text is a row of tokens, and then finds
these. -/
theorem lex_finished_iff {text : List Char} {tokens : List Token} :
    (∃ lexemes last, lex text = (lexemes, .finished last) ∧ lexemes.map Lexeme.token = tokens) ↔
      TokenRow tokens text := by
  constructor
  · rintro ⟨lexemes, last, h, rfl⟩
    exact tokenRow_of_lexFrom h
  · exact fun h => h.lexFrom 0

end SexprSsa.Grammar
