/-
SexprSsa.Proofs.SyntaxErrors — complaints point at the first offence.

The tokens that the reader has passed when it complains are the start of some
tree: either lists are open, and a tree comes of it if they are closed
(`exists_tree_of_passed`), or the tree is complete. And it complains no later
than it must, since the tokens of one tree are never the start of those of
another (`tokens_prefix_free`). So a complaint points at the end of the longest
row of tokens that some text without a fault starts with (`PointsAtOffence`).

A text whose only fault are numerals that are too large counts as a text without
a fault here (`Regular`), since the size of numerals is looked at when the text
has been read. `viable_accepted_iff` says what this amounts to: what an accepted
text can start with is the same but for such numerals.

Main statement: `readExpr_points_at_offence`.
-/
import SexprSsa.Proofs.ProgramTexts

namespace SexprSsa

open Grammar Reading

/-! ## Tokens without a text -/

/-- The tokens, wherever they stand. -/
def anywhere (tokens : List Token) : List Lexeme := tokens.map fun t => ⟨t, 0⟩

@[simp] theorem map_token_anywhere (tokens : List Token) :
    (anywhere tokens).map Lexeme.token = tokens := by
  simp [anywhere, Function.comp_def]

theorem anywhere_append (tokens more : List Token) :
    anywhere (tokens ++ more) = anywhere tokens ++ anywhere more := by
  simp [anywhere]

/-- The tokens of a tree and nothing else are read as the tree. -/
theorem readTokens_anywhere {t : Reading} (ht : t.Proper) :
    readTokens [] (anywhere t.tokens) (.finished 0) = .ok t := by
  have hread : readTokens [] (anywhere t.tokens ++ []) (.finished 0) = .ok t :=
    readTokens_tokens t ht (map_token_anywhere t.tokens)
  rwa [List.append_nil] at hread

/-- The tokens of a tree are not the start of those of another. -/
theorem tokens_prefix_free {t u : Reading} (ht : t.Proper) (hu : u.Proper) {next : Token}
    {more : List Token} : u.tokens ≠ t.tokens ++ next :: more := by
  intro he
  have hread := readTokens_anywhere hu
  rw [he, anywhere_append, readTokens_tokens t ht (map_token_anywhere t.tokens)] at hread
  cases hread

/-- No tree starts with the end of a list. -/
theorem tokens_ne_closing {t : Reading} (ht : t.Proper) (more : List Token) :
    t.tokens ≠ .closing :: more := by
  intro he
  have hread := readTokens_anywhere ht
  rw [he] at hread
  cases hread

/-! ## Open lists -/

/-- A tree inside open lists becomes a part of a tree when these are closed. -/
theorem exists_tree_around {outer : List (List Reading)} :
    ∀ {t : Reading}, ProperStack outer → t.Proper → ∃ u more, Proper u ∧
      u.tokens = passed outer ++ t.tokens ++ more ∧ ∀ token ∈ more, token = .closing := by
  induction outer with
  | nil => exact fun {t} _ ht => ⟨t, [], ht, by simp [passed], by simp⟩
  | cons items outer ih =>
    intro t hstack ht
    have houter : ProperStack outer := fun l hl => hstack l (by simp [hl])
    have hlist : Proper (.list (items.reverse ++ [t])) :=
      .list ((hstack items (by simp)).append (.cons ht .nil))
    obtain ⟨u, more, hu, htokens, hmore⟩ := ih houter hlist
    refine ⟨u, .closing :: more, hu, ?_, by simpa using hmore⟩
    rw [htokens]
    simp [passed, tokens, tokensAll_append, tokensAll]

/-- Inside open lists the text can go on with a word and the ends of the lists. -/
theorem exists_tree_of_passed {pending : List (List Reading)} (h : ProperStack pending) :
    ∃ u more, Proper u ∧ u.tokens = passed pending ++ .word "x" :: more ∧
      ∀ token ∈ more, token = .closing := by
  have hx : Proper (.symbol "x") := .symbol (by decide)
  obtain ⟨u, more, hu, htokens, hmore⟩ := exists_tree_around h hx
  refine ⟨u, more, hu, ?_, hmore⟩
  rw [htokens, List.append_assoc]
  rfl

/-- While a tree is wanted, the tokens that have been passed are not those of a tree. -/
theorem passed_ne_tokens {pending : List (List Reading)} (h : ProperStack pending) {t : Reading}
    (ht : t.Proper) : passed pending ≠ t.tokens := by
  intro he
  obtain ⟨u, more, hu, htokens, -⟩ := exists_tree_of_passed h
  rw [he] at htokens
  exact tokens_prefix_free ht hu htokens

/-! ## Where the reader stops -/

/-- What the reader has passed when it complains, and what it then meets. -/
inductive Halted (tokens : List Token) (coming : List Lexeme) (ending : Ending)
    (expected : Expected) : Prop
  /-- A tree is wanted, but the tokens run out, or a list ends where none is open. -/
  | wanting {pending : List (List Reading)} : ProperStack pending → passed pending = tokens →
      (∀ next ∈ coming.head?, pending = [] ∧ next.token = .closing) → expected ≠ .nothingMore →
      Halted tokens coming ending expected
  /-- One tree is complete, but something follows it. -/
  | sated {t : Reading} : t.Proper → t.tokens = tokens →
      (coming = [] → ∃ quote, ending = .unclosed quote) → expected = .nothingMore →
      Halted tokens coming ending expected

theorem expected_wanted (offset : Nat) : (Complaint.wanted offset).expected ≠ .nothingMore := by
  unfold Complaint.wanted
  split <;> simp

theorem expectEnd_error {t : Reading} {lexemes : List Lexeme} {ending : Ending}
    {complaint : Complaint} (h : expectEnd t lexemes ending = .error complaint) :
    complaint = ⟨startOf lexemes ending, .nothingMore⟩ ∧
      (lexemes = [] → ∃ quote, ending = .unclosed quote) := by
  unfold expectEnd at h
  split at h
  · cases h
  · next quote =>
    cases h
    exact ⟨rfl, fun _ => ⟨quote, rfl⟩⟩
  · cases h
    exact ⟨rfl, by rintro ⟨⟩⟩

/-- A complaint is about the place behind the tokens that have been passed. -/
theorem Passage.halted {lexemes : List Lexeme} {ending : Ending} {complaint : Complaint}
    (h : Passage [] lexemes ending (.error complaint)) :
    ∃ seen coming, lexemes = seen ++ coming ∧ complaint.offset = startOf coming ending ∧
      Halted (seen.map Lexeme.token) coming ending complaint.expected := by
  cases h with
  | inside hpending hpassed hresult =>
    cases hresult
    exact ⟨lexemes, [], (List.append_nil _).symm, rfl,
      .wanting hpending hpassed (by simp) (expected_wanted _)⟩
  | @complete t seen coming hsplit ht htokens hresult =>
    obtain ⟨rfl, hlast⟩ := expectEnd_error hresult.symm
    exact ⟨seen, coming, hsplit, rfl, .sated ht htokens hlast rfl⟩
  | @stuck lexeme coming hsplit _ hclosing hresult =>
    cases hresult
    exact ⟨[], lexeme :: coming, hsplit, rfl,
      .wanting properStack_nil rfl (by simpa using hclosing) (expected_wanted _)⟩

/-- The tokens of a tree are cut at their end or inside open lists. -/
theorem Reading.tokens_cut {t : Reading} (ht : t.Proper) {tokens more : List Token}
    (h : t.tokens = tokens ++ more) :
    more = [] ∨ ∃ pending, ProperStack pending ∧ passed pending = tokens := by
  have hpassage : Passage [] (anywhere tokens) (.finished 0) _ :=
    readTokens_passage properStack_nil
  cases hpassage with
  | @inside pending hpending hpassed _ =>
    exact .inr ⟨pending, hpending, by simpa using hpassed⟩
  | @complete u seen coming hsplit hu htokens _ =>
    have hrow : tokens = u.tokens ++ coming.map Lexeme.token := by
      rw [htokens, List.nil_append, ← List.map_append, ← hsplit, map_token_anywhere]
    rw [hrow, List.append_assoc] at h
    cases hrest : coming.map Lexeme.token ++ more with
    | nil => exact .inl (List.append_eq_nil_iff.1 hrest).2
    | cons next rest =>
      rw [hrest] at h
      exact absurd h (tokens_prefix_free hu ht)
  | @stuck lexeme coming hsplit _ hclosing _ =>
    have hrow : tokens = .closing :: coming.map Lexeme.token := by
      rw [← hclosing, ← List.map_cons, ← hsplit, map_token_anywhere]
    rw [hrow, List.cons_append] at h
    exact absurd h (tokens_ne_closing ht _)

/-- The start of a tree can be completed with a word and ends of lists. -/
theorem Reading.exists_completion {t : Reading} (ht : t.Proper) {tokens more : List Token}
    (h : t.tokens = tokens ++ more) : ∃ u rest, Proper u ∧ u.tokens = tokens ++ rest ∧
      ∀ token ∈ rest, token = .word "x" ∨ token = .closing := by
  rcases tokens_cut ht h with rfl | ⟨pending, hpending, rfl⟩
  · exact ⟨t, [], ht, h, by simp⟩
  · obtain ⟨u, rest, hu, htokens, hrest⟩ := exists_tree_of_passed hpending
    refine ⟨u, .word "x" :: rest, hu, htokens, List.forall_mem_cons.2 ⟨.inl rfl, ?_⟩⟩
    exact fun token ht => .inr (hrest token ht)

/-! ## Tokens that are written down -/

/-- The token can be written. -/
def Token.Spellable : Token → Prop
  | .text raw => Raw raw.toList
  | .word spelling => Word spelling.toList
  | .opening | .closing => True

namespace Grammar

theorem Lead.spellable {tokens : List Token} {text rest : List Char} (h : Lead tokens text rest) :
    ∀ t ∈ tokens, t.Spellable := by
  induction h with
  | trivia => simp
  | token _ ht _ ih =>
    refine List.forall_mem_cons.2 ⟨?_, ih⟩
    cases ht with
    | opening | closing => trivial
    | text hraw => exact hraw
    | word hword _ => exact hword

/-- The tokens that a text starts with are the first that the lexer finds. -/
theorem Lead.prefix_lex {tokens : List Token} {text rest : List Char}
    (h : Lead tokens text rest) : tokens <+: (lex text).1.map Lexeme.token := by
  obtain ⟨lexemes, offset, hlex, rfl⟩ := h.lexFrom 0
  rw [lex, hlex, List.map_append]
  exact List.prefix_append ..

/-- Tokens can be written down one after the other, with blanks between them. -/
theorem exists_tokenRow {tokens : List Token} (h : ∀ t ∈ tokens, t.Spellable) :
    ∃ text : String, TokenRow tokens text.toList := by
  suffices hrow : ∃ text, TokenRow tokens (' ' :: text) by
    obtain ⟨text, hrow⟩ := hrow
    exact ⟨String.ofList (' ' :: text), by rwa [String.toList_ofList]⟩
  have hblank {text : List Char} : Trivia (' ' :: text) text := .blank (by simp) .nil
  induction tokens with
  | nil => exact ⟨[], .done hblank⟩
  | cons t tokens ih =>
    obtain ⟨ht, htokens⟩ := List.forall_mem_cons.1 h
    obtain ⟨text, hrow⟩ := ih htokens
    cases t with
    | opening => exact ⟨_, .token hblank .opening hrow⟩
    | closing => exact ⟨_, .token hblank .closing hrow⟩
    | text raw => exact ⟨_, .token hblank (.text ht) hrow⟩
    | word spelling =>
      exact ⟨_, .token hblank (.word ht (bounded_cons.2 (by simp [Delimiter]))) hrow⟩

end Grammar

/-! ## Good texts -/

/-- The text has no fault but perhaps a numeral that is too large. -/
def Regular (text : String) : Prop :=
  ∀ place expected, readExpr text ≠ .error (.malformed place expected)

/-- The text is accepted. -/
def Accepted (text : String) : Prop := accepts text = true

theorem readExpr_malformed_iff {text : String} {place : Excerpt} {expected : Expected} :
    readExpr text = .error (.malformed place expected) ↔
      ∃ complaint, readTree text.toList = .error complaint ∧
        place = .around text.toList complaint.offset ∧ expected = complaint.expected := by
  unfold readExpr
  constructor
  · intro h
    split at h
    · next complaint hcomplaint =>
      cases h
      exact ⟨complaint, hcomplaint, rfl, rfl⟩
    · split at h <;> cases h
  · rintro ⟨complaint, hcomplaint, rfl, rfl⟩
    rw [hcomplaint]

/-- A text without a fault is the row of the tokens of a tree. -/
theorem regular_iff {text : String} :
    Regular text ↔ ∃ t : Reading, t.Proper ∧ TokenRow t.tokens text.toList := by
  constructor
  · intro h
    cases ht : readTree text.toList with
    | error complaint =>
      exact absurd (readExpr_malformed_iff.2 ⟨complaint, ht, rfl, rfl⟩) (h _ _)
    | ok t => exact ⟨t, written_iff_tokenRow.1 (readTree_ok_iff.1 ht)⟩
  · rintro ⟨t, hproper, hrow⟩ place expected h
    obtain ⟨complaint, hcomplaint, -⟩ := readExpr_malformed_iff.1 h
    rw [readTree_ok_iff.2 (written_iff_tokenRow.2 ⟨hproper, hrow⟩)] at hcomplaint
    cases hcomplaint

/-- The token is no numeral that is too large. -/
def Token.Fits : Token → Prop
  | .word spelling => ∀ v, Numeral spelling.toList v → InRange v
  | .opening | .closing | .text _ => True

theorem fits_of_not_numeral {spelling : String} (h : isNumeral spelling.toList = false) :
    (Token.word spelling).Fits := by
  intro v hv
  rw [isNumeral_iff.2 ⟨v, hv⟩] at h
  cases h

/-- The numerals of a tree can be read exactly if all of its tokens fit. -/
theorem Reading.mapNumbers_ok_iff {t : Reading} (ht : t.Proper) :
    (∃ e, t.mapNumbers numeral64 = .ok e) ↔ ∀ token ∈ t.tokens, token.Fits := by
  rw [(Tree.mapNumbers_iff numeral64 t).1]
  constructor
  · rintro h (_ | _ | raw | spelling) htoken
    · trivial
    · trivial
    · trivial
    · intro v hv
      obtain ⟨n, hn⟩ := h spelling ((mem_numbers_iff t ht).2 ⟨htoken, isNumeral_iff.2 ⟨v, hv⟩⟩)
      refine Classical.not_not.1 fun hlarge => ?_
      rw [(numeral64_error_iff hv).2 ⟨rfl, hlarge⟩] at hn
      cases hn
  · intro h n hn
    obtain ⟨hword, hnumeral⟩ := (mem_numbers_iff t ht).1 hn
    obtain ⟨v, hv⟩ := isNumeral_iff.1 hnumeral
    cases hread : numeral64 n with
    | ok k => exact ⟨k, rfl⟩
    | error other => exact absurd (h _ hword v hv) ((numeral64_error_iff hv).1 hread).2

/-- A text is accepted exactly if it has no fault and its tokens fit. -/
theorem accepted_iff {text : String} : Accepted text ↔
    ∃ t : Reading, t.Proper ∧ TokenRow t.tokens text.toList ∧ ∀ token ∈ t.tokens, token.Fits := by
  have hread : Accepted text ↔ ∃ e, readExpr text = .ok e := by
    unfold Accepted accepts
    cases readExpr text <;> simp [Except.toBool]
  simp only [hread, readExpr_ok_iff_tokenRow]
  constructor
  · rintro ⟨e, t, ht, hrow, he⟩
    exact ⟨t, ht, hrow, (mapNumbers_ok_iff ht).1 ⟨e, he⟩⟩
  · rintro ⟨t, ht, hrow, hfits⟩
    obtain ⟨e, he⟩ := (mapNumbers_ok_iff ht).2 hfits
    exact ⟨e, t, ht, hrow, he⟩

theorem Accepted.regular {text : String} (h : Accepted text) : Regular text := by
  obtain ⟨t, ht, hrow, -⟩ := accepted_iff.1 h
  exact regular_iff.2 ⟨t, ht, hrow⟩

/-! ## Tokens that a good text can start with -/

/-- Some good text starts with the tokens. -/
def Viable (good : String → Prop) (tokens : List Token) : Prop :=
  ∃ more, ∃ text : String, TokenRow (tokens ++ more) text.toList ∧ good text

/-- The tokens are all of the tokens of some good text. -/
def Whole (good : String → Prop) (tokens : List Token) : Prop :=
  ∃ text : String, TokenRow tokens text.toList ∧ good text

/-- The tokens that a text without a fault starts with are the start of a tree. -/
theorem Viable.tree {tokens : List Token} (h : Viable Regular tokens) :
    ∃ t more, Proper t ∧ t.tokens = tokens ++ more := by
  obtain ⟨more, text, hrow, hregular⟩ := h
  obtain ⟨t, ht, hrow'⟩ := regular_iff.1 hregular
  exact ⟨t, more, ht, hrow'.unique hrow⟩

/-- The start of a tree can be written down and completed. -/
theorem Reading.exists_text {t : Reading} (ht : t.Proper) {tokens more : List Token}
    (h : t.tokens = tokens ++ more) (hspell : ∀ token ∈ tokens, token.Spellable) :
    ∃ u rest, ∃ text : String, Proper u ∧ u.tokens = tokens ++ rest ∧
      TokenRow u.tokens text.toList ∧ ∀ token ∈ rest, token.Fits := by
  obtain ⟨u, rest, hu, htokens, hrest⟩ := exists_completion ht h
  have hx : Word "x".toList := .of_all (by decide) (by decide) (by decide)
  obtain ⟨text, hrow⟩ : ∃ text : String, TokenRow u.tokens text.toList := by
    refine exists_tokenRow fun token htoken => ?_
    rw [htokens, List.mem_append] at htoken
    rcases htoken with htoken | htoken
    · exact hspell token htoken
    · rcases hrest token htoken with rfl | rfl
      · exact hx
      · trivial
  refine ⟨u, rest, text, hu, htokens, hrow, fun token htoken => ?_⟩
  rcases hrest token htoken with rfl | rfl
  · exact fits_of_not_numeral rfl
  · trivial

/-- Tokens that can be written and start a tree start a text without a fault. -/
theorem viable_regular {t : Reading} (ht : t.Proper) {tokens more : List Token}
    (h : t.tokens = tokens ++ more) (hspell : ∀ token ∈ tokens, token.Spellable) :
    Viable Regular tokens := by
  obtain ⟨u, rest, text, hu, htokens, hrow, -⟩ := exists_text ht h hspell
  exact ⟨rest, text, htokens ▸ hrow, regular_iff.2 ⟨u, hu, hrow⟩⟩

/-- What an accepted text can start with is what a text without a fault can start with, apart from
numerals that are too large. -/
theorem viable_accepted_iff {tokens : List Token} :
    Viable Accepted tokens ↔ Viable Regular tokens ∧ ∀ token ∈ tokens, token.Fits := by
  constructor
  · rintro ⟨more, text, hrow, haccepted⟩
    obtain ⟨t, ht, hrow', hfits⟩ := accepted_iff.1 haccepted
    rw [hrow'.unique hrow] at hfits
    exact ⟨⟨more, text, hrow, haccepted.regular⟩, fun token h => hfits token (by simp [h])⟩
  · rintro ⟨hviable, hfits⟩
    obtain ⟨t, more, ht, htokens⟩ := hviable.tree
    obtain ⟨more', text', hrow', -⟩ := hviable
    have hspell := (lead_nil_iff.2 hrow').spellable
    obtain ⟨u, rest, text, hu, htokens, hrow, hrest⟩ :=
      exists_text ht htokens fun token h => hspell token (by simp [h])
    refine ⟨rest, text, htokens ▸ hrow, accepted_iff.2 ⟨u, hu, hrow, fun token h => ?_⟩⟩
    rw [htokens, List.mem_append] at h
    exact h.elim (hfits token) (hrest token)

/-- A row that is good apart from its numerals is accepted if its tokens fit. -/
theorem whole_accepted_iff {tokens : List Token} :
    Whole Accepted tokens ↔ Whole Regular tokens ∧ ∀ token ∈ tokens, token.Fits := by
  constructor
  · rintro ⟨text, hrow, haccepted⟩
    obtain ⟨t, ht, hrow', hfits⟩ := accepted_iff.1 haccepted
    rw [hrow'.unique hrow] at hfits
    exact ⟨⟨text, hrow, haccepted.regular⟩, hfits⟩
  · rintro ⟨⟨text, hrow, hregular⟩, hfits⟩
    obtain ⟨t, ht, hrow'⟩ := regular_iff.1 hregular
    rw [← hrow'.unique hrow] at hfits
    exact ⟨text, hrow, accepted_iff.2 ⟨t, ht, hrow', hfits⟩⟩

/-! ## Places in a text -/

/-- The place is the one behind the characters: its line is that of as many line feeds, and its
column counts the characters after the last of them. -/
structure Excerpt.PointsAfter (place : Excerpt) (characters : List Char) : Prop where
  line : place.line = characters.count '\n' + 1
  column : ∃ lines current, characters = lines ++ current ∧ (∀ c ∈ lines.getLast?, c = '\n') ∧
    '\n' ∉ current ∧ place.column = current.length + 1

theorem Excerpt.around_pointsAfter (characters rest : List Char) :
    (Excerpt.around (characters ++ rest) characters.length).PointsAfter characters := by
  have htake : (characters ++ rest).take characters.length = characters := by simp
  refine ⟨?_, (characters.reverse.dropWhile fun c => !endsLine c).reverse,
    (characters.reverse.takeWhile fun c => !endsLine c).reverse, ?_, ?_, ?_, ?_⟩
  · simp only [around, htake]
    rfl
  · rw [← List.reverse_append, List.takeWhile_append_dropWhile, List.reverse_reverse]
  · intro c hc
    rw [List.getLast?_reverse] at hc
    simpa [endsLine] using head?_dropWhile _ c hc
  · intro hmem
    simpa [endsLine] using List.mem_takeWhile_imp (List.mem_reverse.1 hmem)
  · simp only [around, before, htake]

/-! ## The first offence -/

/-- No more of the tokens of a text can be taken. -/
inductive Offence (good : String → Prop) (tokens : List Token) : List Char → Prop
  | runsOut : Offence good tokens []
  | unclosed {rest : List Char} : Unclosed rest → Offence good tokens rest
  | token {t : Token} {rest after : List Char} : Spells t rest after →
      ¬ Viable good (tokens ++ [t]) → Offence good tokens rest

/-- The complaint is about the place behind the longest row of tokens that the text starts with and
that a good text can start with. It expects the end of the text exactly if these tokens are all of
the tokens of a good text. -/
def PointsAtOffence (good : String → Prop) (text : String) (place : Excerpt)
    (expected : Expected) : Prop :=
  ∃ tokens characters rest, text.toList = characters ++ rest ∧ Lead tokens text.toList rest ∧
    Viable good tokens ∧ Offence good tokens rest ∧ place.PointsAfter characters ∧
    (expected.wording = "EOI" ↔ Whole good tokens)

theorem expected_eq_nothingMore {expected : Expected} :
    expected.wording = "EOI" ↔ expected = .nothingMore := by
  cases expected <;> decide

/-- Where the reader halts it has taken all tokens that it can. -/
theorem Halted.offence {tokens : List Token} {coming : List Lexeme} {ending : Ending}
    {expected : Expected} {text rest : List Char} (h : Halted tokens coming ending expected)
    (hlead : Lead tokens text rest) (hnext : Next coming ending rest) :
    Viable Regular tokens ∧ Offence Regular tokens rest ∧
      (expected.wording = "EOI" ↔ Whole Regular tokens) := by
  rw [expected_eq_nothingMore]
  cases h with
  | @wanting pending hpending hpassed hclosing hexpected =>
    obtain ⟨u, more, hu, htokens, -⟩ := exists_tree_of_passed hpending
    rw [hpassed] at htokens
    refine ⟨viable_regular hu htokens hlead.spellable, ?_, iff_of_false hexpected ?_⟩
    · cases hnext with
      | finished => exact .runsOut
      | unclosed hopen => exact .unclosed hopen
      | @token next _ _ _ after ht =>
        obtain ⟨rfl, hnext⟩ := hclosing next rfl
        refine .token ht fun hviable => ?_
        obtain ⟨v, more, hv, htokens⟩ := hviable.tree
        rw [hnext, ← hpassed] at htokens
        exact tokens_ne_closing hv more htokens
    · rintro ⟨complete, hrow, hregular⟩
      obtain ⟨v, hv, hrow'⟩ := regular_iff.1 hregular
      exact passed_ne_tokens hpending hv (hpassed.trans (hrow.unique hrow'))
  | @sated t ht htokens hlast hexpected =>
    subst htokens
    refine ⟨viable_regular ht (List.append_nil _).symm hlead.spellable, ?_,
      iff_of_true hexpected ?_⟩
    · cases hnext with
      | finished =>
        obtain ⟨quote, hquote⟩ := hlast rfl
        cases hquote
      | unclosed hopen => exact .unclosed hopen
      | token hspells =>
        refine .token hspells fun hviable => ?_
        obtain ⟨v, more, hv, htokens⟩ := hviable.tree
        rw [List.append_assoc] at htokens
        exact tokens_prefix_free ht hv htokens
    · obtain ⟨complete, hrow⟩ := exists_tokenRow hlead.spellable
      exact ⟨complete, hrow, regular_iff.2 ⟨t, ht, hrow⟩⟩

/-- A complaint points at the first token that no text without a fault can have there. -/
theorem pointsAtOffence_regular {text : String} {place : Excerpt} {expected : Expected}
    (h : readExpr text = .error (.malformed place expected)) :
    PointsAtOffence Regular text place expected := by
  obtain ⟨complaint, hcomplaint, rfl, rfl⟩ := readExpr_malformed_iff.1 h
  have hpassage : Passage [] (lexFrom 0 text.toList).1 (lexFrom 0 text.toList).2
      (readTree text.toList) := readTokens_passage properStack_nil
  rw [hcomplaint] at hpassage
  obtain ⟨seen, coming, hcut, hoffset, hhalted⟩ := hpassage.halted
  obtain ⟨rest, hlead, hlength, hnext⟩ := lexFrom_located rfl seen coming hcut
  obtain ⟨hviable, hoffence, hexpected⟩ := hhalted.offence hlead hnext
  obtain ⟨characters, htext⟩ := hlead.suffix
  have hcharacters : complaint.offset = characters.length := by
    have hsum := congrArg List.length htext
    rw [List.length_append] at hsum
    omega
  refine ⟨_, characters, rest, htext.symm, hlead, hviable, hoffence, ?_, hexpected⟩
  rw [hcharacters, ← htext]
  exact Excerpt.around_pointsAfter characters rest

/-- The text has no numeral that is too large. -/
def InBounds (text : String) : Prop :=
  ∀ tokens rest, Lead tokens text.toList rest → ∀ token ∈ tokens, token.Fits

/-- Without numerals that are too large, a text that has no fault is an accepted one. -/
theorem PointsAtOffence.accepted {text : String} {place : Excerpt} {expected : Expected}
    (h : PointsAtOffence Regular text place expected) (hbounds : InBounds text) :
    PointsAtOffence Accepted text place expected := by
  obtain ⟨tokens, characters, rest, htext, hlead, hviable, hoffence, hplace, hexpected⟩ := h
  have hfits := hbounds tokens rest hlead
  refine ⟨tokens, characters, rest, htext, hlead, viable_accepted_iff.2 ⟨hviable, hfits⟩, ?_,
    hplace, by rw [hexpected, whole_accepted_iff, and_iff_left hfits]⟩
  cases hoffence with
  | runsOut => exact .runsOut
  | unclosed hopen => exact .unclosed hopen
  | token ht hnot => exact .token ht fun h => hnot (viable_accepted_iff.1 h).1

/-- **A complaint points at the first offence.** The tokens before the place of a complaint are the
longest row that the text starts with and that some text without a fault can start with; the place
is the start of what follows them; and the end of the text is expected exactly if they are complete.
In a text without numerals that are too large, they are also the longest row that some accepted text
can start with, and complete exactly if they are the tokens of an accepted text. -/
theorem readExpr_points_at_offence {text : String} {place : Excerpt} {expected : Expected}
    (h : readExpr text = .error (.malformed place expected)) :
    PointsAtOffence Regular text place expected ∧
      (InBounds text → PointsAtOffence Accepted text place expected) :=
  ⟨pointsAtOffence_regular h, (pointsAtOffence_regular h).accepted⟩

/-- One tree and the end of a list that nobody opened, on the second line. -/
theorem readExpr_points_at_stray_closing :
    readExpr "x\n )" = .error (.malformed ⟨2, 2, [' ', ')']⟩ .nothingMore) ∧
      InBounds "x\n )" ∧
      PointsAtOffence Accepted "x\n )" ⟨2, 2, [' ', ')']⟩ .nothingMore := by
  have hlex : lex "x\n )".toList = ([⟨.word "x", 0⟩, ⟨.closing, 3⟩], .finished 4) := by
    simp [lex, lexFrom, isBlank, startsComment, isWordChar, isDelimiter]
  have h : readExpr "x\n )" = .error (.malformed ⟨2, 2, [' ', ')']⟩ .nothingMore) := by
    rw [readExpr, readTree, hlex]
    rfl
  have hbounds : InBounds "x\n )" := by
    intro tokens rest hlead token htoken
    have hmem := hlead.prefix_lex.subset htoken
    rw [hlex] at hmem
    rcases List.mem_cons.1 hmem with rfl | hmem
    · exact fits_of_not_numeral rfl
    · obtain rfl := List.mem_singleton.1 hmem
      trivial
  exact ⟨h, hbounds, (readExpr_points_at_offence h).2 hbounds⟩

/-- A numeral that is too large is not the first offence, although no accepted text has it. -/
theorem not_pointsAtOffence_accepted :
    readExpr "99999999999999999999 )" =
        .error (.malformed ⟨1, 22, "99999999999999999999 )".toList⟩ .nothingMore) ∧
      ¬ PointsAtOffence Accepted "99999999999999999999 )"
        ⟨1, 22, "99999999999999999999 )".toList⟩ .nothingMore := by
  have hlex : lex "99999999999999999999 )".toList =
      ([⟨.word "99999999999999999999", 0⟩, ⟨.closing, 21⟩], .finished 22) := by
    simp [lex, lexFrom, isBlank, startsComment, isWordChar, isDelimiter]
  refine ⟨by rw [readExpr, readTree, hlex]; rfl, ?_⟩
  rintro ⟨tokens, characters, rest, -, hlead, hviable, -, -, hexpected⟩
  obtain ⟨complete, hrow, haccepted⟩ := hexpected.1 rfl
  have hfits := (viable_accepted_iff.1 hviable).2
  have hprefix := hlead.prefix_lex
  rw [hlex] at hprefix
  rcases List.prefix_cons_iff.1 hprefix with rfl | ⟨tokens, rfl, -⟩
  · obtain ⟨t, ht, hrow'⟩ := regular_iff.1 haccepted.regular
    exact passed_ne_tokens properStack_nil ht (hrow.unique hrow')
  · obtain ⟨v, hv⟩ : ∃ v, Numeral "99999999999999999999".toList v := isNumeral_iff.1 (by decide)
    have hvalue : v = 99999999999999999999 := hv.value_eq.symm.trans (by decide)
    have hrange := (hfits _ List.mem_cons_self v hv).2
    omega

end SexprSsa
