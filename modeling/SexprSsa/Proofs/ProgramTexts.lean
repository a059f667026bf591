/-
SexprSsa.Proofs.ProgramTexts — programs that are put together from texts.

A text can be continued after a line feed without a change to its tokens: the
line feed ends a comment and a word, and nothing else reaches over the end of
the text but a literal that is left open (`Lead.append`). The wrapper that
makes a source a program puts one before its closing parenthesis. So the tokens
of the source stand between those of the wrapper as they are, and no source
closes the wrapper before its end (`tokenRow_wrapProgram_iff`).

Main statements: `readProgram_ok_iff`, a source is read as a program exactly if
it is a row of trees by itself; and `readProgram_lines`, which follows from it.
-/
import SexprSsa.Proofs.Reading

namespace SexprSsa

namespace Grammar

/-! ## What a text leaves is its end -/

theorem Trivia.suffix {text rest : List Char} (h : Trivia text rest) : rest <:+ text := by
  induction h with
  | nil => exact List.suffix_rfl
  | blank _ _ ih => exact ih.trans (List.suffix_cons ..)
  | @comment body text rest _ _ _ ih =>
    exact ih.trans (List.suffix_append ('/' :: '/' :: body) text)

theorem Spells.suffix {t : Token} {text rest : List Char} (h : Spells t text rest) :
    rest <:+ text := by
  cases h with
  | opening => exact List.suffix_cons ..
  | closing => exact List.suffix_cons ..
  | @text raw _ _ => exact ⟨'"' :: (raw.toList ++ ['"']), by simp⟩
  | word _ _ => exact List.suffix_append ..

theorem Lead.suffix {tokens : List Token} {text rest : List Char} (h : Lead tokens text rest) :
    rest <:+ text := by
  induction h with
  | trivia h => exact h.suffix
  | token hstart ht _ ih => exact (ih.trans ht.suffix).trans hstart.suffix

/-! ## Texts that are continued -/

/-- A text that leaves `rest` may go on with `more`: if nothing is left, a line feed follows. -/
def Seam (rest more : List Char) : Prop := rest = [] → ∀ c ∈ more.head?, c = '\n'

theorem Seam.of_suffix {text rest more : List Char} (h : Seam rest more) (hrest : rest <:+ text) :
    Seam text more := by
  rintro rfl
  exact h (List.suffix_nil.1 hrest)

/-- The first character of a continued text is its own, or a line feed. -/
theorem Seam.head? {text more : List Char} (h : Seam text more) {c : Char}
    (hc : c ∈ (text ++ more).head?) : c ∈ text.head? ∨ c = '\n' := by
  cases text with
  | nil => exact .inr (h rfl c hc)
  | cons d text => exact .inl hc

theorem Trivia.append {text rest more : List Char} (h : Trivia text rest) (hseam : Seam rest more) :
    Trivia (text ++ more) (rest ++ more) := by
  induction h with
  | nil => exact .nil
  | blank hc _ ih => exact .blank hc (ih hseam)
  | @comment body text rest hbody hend hrest ih =>
    have hcomment : Trivia ('/' :: '/' :: (body ++ (text ++ more))) (rest ++ more) := by
      refine .comment hbody (fun c hc => ?_) (ih hseam)
      exact ((hseam.of_suffix hrest.suffix).head? hc).elim (hend c) id
    rwa [← List.append_assoc] at hcomment

theorem Spells.append {t : Token} {text rest more : List Char} (h : Spells t text rest)
    (hseam : Seam rest more) : Spells t (text ++ more) (rest ++ more) := by
  cases h with
  | opening => exact .opening
  | closing => exact .closing
  | @text raw _ hraw =>
    have htext : Spells (.text raw) ('"' :: (raw.toList ++ '"' :: (rest ++ more)))
      (rest ++ more) := .text hraw
    simpa using htext
  | @word spelling _ hword hrest =>
    have hbounded : Bounded (rest ++ more) := by
      intro c hc
      rcases hseam.head? hc with hc | rfl
      · exact hrest c hc
      · simp [Delimiter]
    rw [List.append_assoc]
    exact .word hword hbounded

/-- A text that is continued starts with the tokens that it started with. -/
theorem Lead.append {tokens : List Token} {text rest more : List Char} (h : Lead tokens text rest)
    (hseam : Seam rest more) : Lead tokens (text ++ more) (rest ++ more) := by
  induction h with
  | trivia h => exact .trivia (h.append hseam)
  | token hstart ht hlead ih =>
    have hafter := hseam.of_suffix hlead.suffix
    exact .token (hstart.append (hafter.of_suffix ht.suffix)) (ht.append hafter) (ih hseam)

theorem Lead.trans {tokens more : List Token} {text middle rest : List Char}
    (h : Lead tokens text middle) (h' : Lead more middle rest) :
    Lead (tokens ++ more) text rest := by
  induction h with
  | trivia h => exact h'.prepend h
  | token hstart ht _ ih => exact .token hstart ht (ih h')

/-- Rows of tokens on lines of their own make up one row. -/
theorem TokenRow.lines {tokens more : List Token} {text text' : List Char}
    (h : TokenRow tokens text) (h' : TokenRow more text') :
    TokenRow (tokens ++ more) (text ++ '\n' :: text') := by
  have hlead : Lead tokens (text ++ '\n' :: text') ('\n' :: text') :=
    (lead_nil_iff.2 h).append (by simp [Seam])
  have hmore : Lead more ('\n' :: text') [] :=
    (lead_nil_iff.2 h').prepend (.blank (by simp) .nil)
  exact lead_nil_iff.1 (hlead.trans hmore)

/-- A text has one row of tokens. -/
theorem TokenRow.unique {tokens tokens' : List Token} {text : List Char}
    (h : TokenRow tokens text) (h' : TokenRow tokens' text) : tokens = tokens' := by
  obtain ⟨lexemes, last, hlex, rfl⟩ := h.lexFrom 0
  obtain ⟨lexemes', last', hlex', rfl⟩ := h'.lexFrom 0
  rw [hlex] at hlex'
  cases hlex'
  rfl

/-! ## Literals that are left open -/

/-- A literal stays open if no quote follows. -/
theorem Unclosed.append {text more : List Char} (h : Unclosed text) (hmore : '"' ∉ more) :
    Unclosed (text ++ more) := by
  obtain ⟨inside, rfl, hopen⟩ := h
  refine ⟨inside ++ more, rfl, fun raw rest hraw he => ?_⟩
  rcases List.append_eq_append_iff.1 he with ⟨middle, rfl, hrest⟩ | ⟨middle, rfl, hrest⟩
  · exact hmore (by simp [hrest])
  · cases middle with
    | nil => exact hmore (by simp [← show '"' :: rest = more from hrest])
    | cons c middle =>
      obtain ⟨rfl, -⟩ := List.cons.inj hrest
      exact hopen raw middle hraw rfl

theorem lexFrom_unclosed {text : List Char} (h : Unclosed text) (offset : Nat) :
    lexFrom offset text = ([], .unclosed offset) := by
  obtain ⟨more, rfl, hopen⟩ := h
  rw [lexFrom, if_neg (by decide), if_neg (by simp [startsComment]), if_neg (by decide),
    if_neg (by decide), if_pos rfl]
  split
  · rfl
  · next raw rest hsplit =>
    obtain ⟨hraw, he⟩ := splitQuoted_eq hsplit
    exact absurd he (hopen raw rest hraw)

/-- A text with an open literal is no row of tokens. -/
theorem Lead.not_tokenRow {tokens row : List Token} {text rest : List Char}
    (h : Lead tokens text rest) (hopen : Unclosed rest) : ¬ TokenRow row text := by
  intro hrow
  obtain ⟨lexemes, last, hlex, -⟩ := hrow.lexFrom 0
  obtain ⟨lexemes', offset, hlex', -⟩ := h.lexFrom 0
  rw [hlex, lexFrom_unclosed hopen] at hlex'
  cases congrArg Prod.snd hlex'

/-- The tokens of a text that is no row of tokens end at an open literal. -/
theorem tokenRow_or_unclosed (text : List Char) :
    (∃ tokens, TokenRow tokens text) ∨ ∃ tokens rest, Lead tokens text rest ∧ Unclosed rest := by
  rcases hlex : lexFrom 0 text with ⟨lexemes, ending⟩
  obtain ⟨rest, hlead, -, hnext⟩ := lexFrom_located hlex lexemes [] (List.append_nil _).symm
  cases hnext with
  | finished => exact .inl ⟨_, lead_nil_iff.1 hlead⟩
  | unclosed hopen => exact .inr ⟨_, _, hlead, hopen⟩

/-! ## The wrapper of a program -/

theorem toList_wrapProgram (source : String) :
    (wrapProgram source).toList =
      '(' :: ("begin".toList ++ ' ' :: (source.toList ++ ['\n', ')'])) := by
  simp [wrapProgram]

theorem word_begin : Word "begin".toList := .of_all (by decide) (by decide) (by decide)

/-- The tokens of a source come after those that open the wrapper. -/
theorem Lead.wrap {tokens : List Token} {source : String} {rest : List Char}
    (h : Lead tokens source.toList rest) :
    Lead (.opening :: .word "begin" :: tokens) (wrapProgram source).toList
      (rest ++ ['\n', ')']) := by
  rw [toList_wrapProgram]
  have hseam : Seam rest ['\n', ')'] := by simp [Seam]
  have hsource := h.append hseam
  refine .token .nil .opening (.token .nil (.word word_begin ?_) (hsource.prepend ?_))
  · simp [Bounded, Delimiter]
  · exact .blank (by simp) .nil

/-- **A source never closes its wrapper.** A wrapped source is a row of tokens exactly if the
source is, and its last token is the parenthesis that the wrapper ends with. -/
theorem tokenRow_wrapProgram_iff {tokens : List Token} {source : String} :
    TokenRow tokens (wrapProgram source).toList ↔
      ∃ inner, TokenRow inner source.toList ∧
        tokens = .opening :: .word "begin" :: (inner ++ [.closing]) := by
  have hwrap {inner : List Token} (h : TokenRow inner source.toList) :
      TokenRow (.opening :: .word "begin" :: (inner ++ [.closing]))
        (wrapProgram source).toList := by
    have hclose : Lead [.closing] ([] ++ ['\n', ')']) [] :=
      .token (.blank (by simp) .nil) .closing (.trivia .nil)
    exact lead_nil_iff.1 ((lead_nil_iff.2 h).wrap.trans hclose)
  constructor
  · intro h
    rcases tokenRow_or_unclosed source.toList with ⟨inner, hinner⟩ | ⟨inner, rest, hlead, hopen⟩
    · exact ⟨inner, hinner, h.unique (hwrap hinner)⟩
    · exact absurd h (hlead.wrap.not_tokenRow (hopen.append (by decide)))
  · rintro ⟨inner, hinner, rfl⟩
    exact hwrap hinner

end Grammar

open Grammar Reading

/-! ## Programs -/

/-- A text is read as an expression exactly if it is the row of tokens of a tree that it is when
its numerals are read. -/
theorem readExpr_ok_iff_tokenRow {text : String} {e : Expr} :
    readExpr text = .ok e ↔ ∃ t : Reading, t.Proper ∧ TokenRow t.tokens text.toList ∧
      t.mapNumbers numeral64 = .ok e := by
  unfold readExpr
  constructor
  · intro h
    split at h
    · cases h
    · next t ht =>
      obtain ⟨hproper, hrow⟩ := written_iff_tokenRow.1 (readTree_ok_iff.1 ht)
      split at h
      · cases h
      · next he =>
        cases h
        exact ⟨t, hproper, hrow, he⟩
  · rintro ⟨t, hproper, hrow, he⟩
    rw [readTree_ok_iff.2 (written_iff_tokenRow.2 ⟨hproper, hrow⟩)]
    simp only [he]

/-- The tokens of a program are those of its trees. -/
theorem Reading.tokens_eq_program {t : Reading} (ht : t.Proper) {inner : List Token}
    (h : t.tokens = .opening :: .word "begin" :: (inner ++ [.closing])) :
    ∃ items, AllProper items ∧ t = .list (.symbol "begin" :: items) ∧ tokensAll items = inner := by
  cases ht with
  | number | text | symbol => simp [tokens] at h
  | @list items hitems =>
    rw [tokens] at h
    have hinner : tokensAll items = .word "begin" :: inner := by
      obtain ⟨-, h⟩ := List.cons.inj h
      exact List.append_cancel_right (h.trans (List.cons_append ..).symm)
    cases hitems with
    | nil => cases hinner
    | @cons first items hfirst hitems =>
      cases hfirst with
      | @number n hn =>
        obtain ⟨hword, -⟩ := List.cons.inj hinner
        cases hword
        exact absurd hn (by decide)
      | text | list => simp [tokensAll, tokens] at hinner
      | symbol =>
        obtain ⟨hword, hitems'⟩ := List.cons.inj hinner
        cases hword
        exact ⟨items, hitems, rfl, hitems'⟩

/-- A source is read as a program exactly if it is a row of trees by itself; the program is the
list of `begin` and these trees, their numerals read. -/
theorem readProgram_ok_iff {source : String} {e : Expr} :
    readProgram source = .ok e ↔ ∃ items es, AllProper items ∧
      TokenRow (tokensAll items) source.toList ∧
      Tree.mapAllNumbers numeral64 items = .ok es ∧ e = .list (.symbol "begin" :: es) := by
  have hnumbers (items : List Reading) :
      Tree.mapNumbers numeral64 (.list (.symbol "begin" :: items)) =
        (Tree.mapAllNumbers numeral64 items).map fun es => .list (.symbol "begin" :: es) := by
    rw [Tree.mapNumbers, Tree.mapAllNumbers, Tree.mapNumbers]
    cases Tree.mapAllNumbers numeral64 items <;> rfl
  unfold readProgram
  rw [readExpr_ok_iff_tokenRow]
  constructor
  · rintro ⟨t, hproper, hrow, he⟩
    obtain ⟨inner, hinner, htokens⟩ := tokenRow_wrapProgram_iff.1 hrow
    obtain ⟨items, hitems, rfl, rfl⟩ := Reading.tokens_eq_program hproper htokens
    rw [hnumbers] at he
    cases hes : Tree.mapAllNumbers numeral64 items with
    | error => simp [hes, Except.map] at he
    | ok es =>
      rw [hes] at he
      cases he
      exact ⟨items, es, hitems, hinner, hes, rfl⟩
  · rintro ⟨items, es, hitems, hrow, hes, rfl⟩
    refine ⟨.list (.symbol "begin" :: items), .list (.cons (.symbol (by decide)) hitems), ?_, ?_⟩
    · exact tokenRow_wrapProgram_iff.2 ⟨_, hrow, rfl⟩
    · rw [hnumbers, hes]
      rfl

namespace Tree

variable {ν μ ε : Type} {read : ν → Except ε μ}

theorem mapAllNumbers_cons_ok {t : Tree ν} {items : List (Tree ν)} {es : List (Tree μ)}
    (h : mapAllNumbers read (t :: items) = .ok es) :
    ∃ e rest, t.mapNumbers read = .ok e ∧ mapAllNumbers read items = .ok rest ∧
      es = e :: rest := by
  rw [mapAllNumbers] at h
  cases ht : t.mapNumbers read with
  | error => simp [ht, bind, Except.bind] at h
  | ok e =>
    cases hitems : mapAllNumbers read items with
    | error => simp [ht, hitems, bind, Except.bind] at h
    | ok rest =>
      rw [ht, hitems] at h
      cases h
      exact ⟨e, rest, rfl, rfl, rfl⟩

/-- Numerals are read along a list. -/
theorem mapAllNumbers_append {items more : List (Tree ν)} {es fs : List (Tree μ)}
    (h : mapAllNumbers read items = .ok es) (h' : mapAllNumbers read more = .ok fs) :
    mapAllNumbers read (items ++ more) = .ok (es ++ fs) := by
  induction items generalizing es with
  | nil =>
    cases h
    exact h'
  | cons t items ih =>
    obtain ⟨e, rest, ht, hitems, rfl⟩ := mapAllNumbers_cons_ok h
    rw [List.cons_append, mapAllNumbers, ht, ih hitems]
    rfl

/-- One tree is read from a list of one. -/
theorem mapAllNumbers_singleton {items : List (Tree ν)} {e : Tree μ}
    (h : mapAllNumbers read items = .ok [e]) : ∃ t, items = [t] ∧ t.mapNumbers read = .ok e := by
  cases items with
  | nil => cases h
  | cons t items =>
    obtain ⟨_, rest, ht, hitems, he⟩ := mapAllNumbers_cons_ok h
    cases he
    cases items with
    | nil => exact ⟨t, rfl, ht⟩
    | cons u items =>
      obtain ⟨_, _, -, -, ⟨⟩⟩ := mapAllNumbers_cons_ok hitems

end Tree

/-- **Programs can be joined line by line.** Sources that are read as programs are read, one after
the other on lines of their own, as the program of the expressions of both. Every program is a list
that starts with `begin`; and one with a single expression has the text of that expression. -/
theorem readProgram_lines (source source' : String) :
    (∀ es fs, readProgram source = .ok (.list (.symbol "begin" :: es)) →
      readProgram source' = .ok (.list (.symbol "begin" :: fs)) →
      readProgram (source ++ "\n" ++ source') = .ok (.list (.symbol "begin" :: (es ++ fs)))) ∧
    (∀ e, readProgram source = .ok e → ∃ es, e = .list (.symbol "begin" :: es)) ∧
    ∀ e, readProgram source = .ok (.list [.symbol "begin", e]) ↔ readExpr source = .ok e := by
  refine ⟨fun es fs h h' => ?_, fun e h => ?_, fun e => ?_⟩
  · obtain ⟨items, _, hitems, hrow, hes, he⟩ := readProgram_ok_iff.1 h
    obtain ⟨more, _, hmore, hrow', hfs, he'⟩ := readProgram_ok_iff.1 h'
    cases he
    cases he'
    refine readProgram_ok_iff.2 ⟨items ++ more, es ++ fs, hitems.append hmore, ?_,
      Tree.mapAllNumbers_append hes hfs, rfl⟩
    rw [tokensAll_append]
    simpa using hrow.lines hrow'
  · obtain ⟨_, es, -, -, -, rfl⟩ := readProgram_ok_iff.1 h
    exact ⟨es, rfl⟩
  · rw [readProgram_ok_iff, readExpr_ok_iff_tokenRow]
    constructor
    · rintro ⟨items, es, hitems, hrow, hes, he⟩
      cases he
      obtain ⟨t, rfl, ht⟩ := Tree.mapAllNumbers_singleton hes
      cases hitems with
      | cons hproper _ => exact ⟨t, hproper, by simpa [tokensAll] using hrow, ht⟩
    · rintro ⟨t, ht, hrow, he⟩
      refine ⟨[t], [e], .cons ht .nil, ?_, ?_, rfl⟩
      · simpa [tokensAll] using hrow
      · rw [Tree.mapAllNumbers, he]
        rfl

/-- A comment at the end of a source does not reach into the next. -/
theorem readProgram_lines_comments :
    readProgram "x // one" = .ok (.list [.symbol "begin", .symbol "x"]) ∧
      readProgram "// two\ny" = .ok (.list [.symbol "begin", .symbol "y"]) ∧
      readProgram ("x // one" ++ "\n" ++ "// two\ny") =
        .ok (.list [.symbol "begin", .symbol "x", .symbol "y"]) := by
  have h : readProgram "x // one" = .ok (.list [.symbol "begin", .symbol "x"]) := by
    have hlex : lex (wrapProgram "x // one").toList =
        ([⟨.opening, 0⟩, ⟨.word "begin", 1⟩, ⟨.word "x", 7⟩, ⟨.closing, 16⟩], .finished 17) := by
      simp [wrapProgram, lex, lexFrom, isBlank, startsComment, isWordChar, isDelimiter, inComment,
        List.takeWhile_cons, List.dropWhile_cons]
    rw [readProgram, readExpr, readTree, hlex]
    rfl
  have h' : readProgram "// two\ny" = .ok (.list [.symbol "begin", .symbol "y"]) := by
    have hlex : lex (wrapProgram "// two\ny").toList =
        ([⟨.opening, 0⟩, ⟨.word "begin", 1⟩, ⟨.word "y", 14⟩, ⟨.closing, 16⟩], .finished 17) := by
      simp [wrapProgram, lex, lexFrom, isBlank, startsComment, isWordChar, isDelimiter, inComment,
        List.takeWhile_cons, List.dropWhile_cons]
    rw [readProgram, readExpr, readTree, hlex]
    rfl
  exact ⟨h, h', (readProgram_lines _ _).1 _ _ h h'⟩

end SexprSsa
