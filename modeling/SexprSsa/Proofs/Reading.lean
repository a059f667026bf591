/-
SexprSsa.Proofs.Reading — the reader accepts what the grammar writes.

A tree has one row of tokens. The reader goes through the tokens with the open
lists on a stack; the tokens that it has passed are those of the stack
(`passed`, `readTokens_passage`), so that at the end they are the tokens of the
tree it has built (`readTokens_ok`). With the lexer's side of the matter (`lex_finished_iff`)
this makes the reader agree with the grammar on trees of numerals.

Main statements: `readTree_ok_iff` for trees of numerals, `readExpr_ok_iff` for
expressions, and `readExpr_follows_grammar`, which also says which numeral the
reader complains about.
-/
import SexprSsa.Proofs.TokenRow

namespace SexprSsa

open Grammar

/-! ## The tokens of a tree -/

namespace Reading

mutual

/-- The tokens of a tree of numerals. -/
def tokens : Reading → List Token
  | .number n => [.word n]
  | .text raw => [.text raw]
  | .symbol name => [.word name]
  | .list items => .opening :: (tokensAll items ++ [.closing])

/-- The tokens of the items of a list. -/
def tokensAll : List Reading → List Token
  | [] => []
  | t :: items => tokens t ++ tokensAll items

end

theorem tokensAll_append (items more : List Reading) :
    tokensAll (items ++ more) = tokensAll items ++ tokensAll more := by
  induction items with
  | nil => rfl
  | cons t items ih => simp [tokensAll, ih]

mutual

/-- The numbers of the tree are numerals and its symbols are not. -/
inductive Proper : Reading → Prop
  | number {n : String} : isNumeral n.toList = true → Proper (.number n)
  | text {raw : String} : Proper (.text raw)
  | symbol {name : String} : isNumeral name.toList = false → Proper (.symbol name)
  | list {items : List Reading} : AllProper items → Proper (.list items)

/-- All of the trees are proper. -/
inductive AllProper : List Reading → Prop
  | nil : AllProper []
  | cons {t : Reading} {items : List Reading} : Proper t → AllProper items →
      AllProper (t :: items)

end

theorem AllProper.append {items more : List Reading} (h : AllProper items)
    (h' : AllProper more) : AllProper (items ++ more) := by
  induction items with
  | nil => exact h'
  | cons t items ih =>
    cases h with
    | cons ht hitems => exact .cons ht (ih hitems)

/-- A word is read as the tree that it is the only token of. -/
theorem proper_ofWord (spelling : String) : (ofWord spelling).Proper := by
  unfold ofWord
  split
  · next h => exact .number h
  · next h => exact .symbol (by simpa using h)

@[simp] theorem tokens_ofWord (spelling : String) :
    (ofWord spelling).tokens = [.word spelling] := by
  unfold ofWord
  split <;> rfl

end Reading

/-! ## The reader on tokens -/

open Reading

/-- The tokens behind a stack of open lists. -/
def passed : List (List Reading) → List Token
  | [] => []
  | items :: outer => passed outer ++ .opening :: tokensAll items.reverse

/-- All items of the open lists are proper. -/
def ProperStack (pending : List (List Reading)) : Prop :=
  ∀ items ∈ pending, AllProper items.reverse

theorem properStack_nil : ProperStack [] := by
  simp [ProperStack]

/-- What a complete tree leads to, given the lists that are open around it. -/
def resumeWith (t : Reading) (pending : List (List Reading)) (rest : List Lexeme)
    (ending : Ending) : Except Complaint Reading :=
  match pending with
  | [] => expectEnd t rest ending
  | items :: outer => readTokens ((t :: items) :: outer) rest ending

theorem expectEnd_ok {t tree : Reading} {lexemes : List Lexeme} {ending : Ending}
    (h : expectEnd t lexemes ending = .ok tree) :
    tree = t ∧ lexemes = [] ∧ ∃ last, ending = .finished last := by
  unfold expectEnd at h
  split at h
  · cases h
    exact ⟨rfl, rfl, _, rfl⟩
  · cases h
  · cases h

/-- A token that cannot open a list and stands for a tree of its own. -/
theorem readTokens_atom {pending : List (List Reading)} {lexeme : Lexeme} {rest : List Lexeme}
    {ending : Ending} {t : Reading} {outer : List (List Reading)}
    (h : Progress.step pending lexeme.token = .add t outer) :
    readTokens pending (lexeme :: rest) ending = resumeWith t outer rest ending := by
  rw [readTokens, h]
  cases outer <;> rfl

/-- The tokens that have been read are these. -/
def Progress.Accounts (tokens : List Token) : Progress → Prop
  | .inside items outer => ProperStack (items :: outer) ∧ passed (items :: outer) = tokens
  | .complete t => t.Proper ∧ t.tokens = tokens
  | .stuck => False

/-- A tree that is complete inside some lists. -/
theorem Progress.add_accounts {outer : List (List Reading)} {t : Reading}
    (houter : ProperStack outer) (ht : t.Proper) :
    (Progress.add t outer).Accounts (passed outer ++ t.tokens) := by
  cases outer with
  | nil => exact ⟨ht, rfl⟩
  | cons items outer =>
    refine ⟨fun l hl => ?_, by simp [passed, tokensAll_append, tokensAll]⟩
    rcases List.mem_cons.1 hl with rfl | hl
    · rw [List.reverse_cons]
      exact (houter items (by simp)).append (.cons ht .nil)
    · exact houter l (by simp [hl])

/-- Every token is taken, except the end of a list where none is open. -/
theorem Progress.step_accounts {pending : List (List Reading)} (h : ProperStack pending)
    (token : Token) : (Progress.step pending token).Accounts (passed pending ++ [token]) ∨
      Progress.step pending token = .stuck ∧ pending = [] ∧ token = .closing := by
  cases token with
  | opening =>
    refine .inl ⟨fun l hl => ?_, by simp [passed, tokensAll]⟩
    rcases List.mem_cons.1 hl with rfl | hl
    · exact .nil
    · exact h l hl
  | text raw => exact .inl (add_accounts h .text)
  | word spelling =>
    have hadd := add_accounts h (proper_ofWord spelling)
    rw [tokens_ofWord] at hadd
    exact .inl hadd
  | closing =>
    cases pending with
    | nil => exact .inr ⟨rfl, rfl, rfl⟩
    | cons items outer =>
      have houter : ProperStack outer := fun l hl => h l (by simp [hl])
      have hadd := add_accounts houter (.list (h items (by simp)))
      have htokens : passed outer ++ tokens (.list items.reverse) =
          passed (items :: outer) ++ [.closing] := by simp [passed, tokens]
      rw [htokens] at hadd
      exact .inl hadd

/-- How the reader comes through a row of tokens, those in `before` having been read. -/
inductive Passage (before : List Token) (lexemes : List Lexeme) (ending : Ending)
    (result : Except Complaint Reading) : Prop
  /-- The tokens run out while a tree is wanted. -/
  | inside {pending : List (List Reading)} : ProperStack pending →
      passed pending = before ++ lexemes.map Lexeme.token →
      result = .error (.wanted ending.offset) → Passage before lexemes ending result
  /-- The text's tree is complete before `coming`. -/
  | complete {t : Reading} {seen coming : List Lexeme} : lexemes = seen ++ coming → t.Proper →
      t.tokens = before ++ seen.map Lexeme.token → result = expectEnd t coming ending →
      Passage before lexemes ending result
  /-- A list ends before anything has been read. -/
  | stuck {lexeme : Lexeme} {coming : List Lexeme} : lexemes = lexeme :: coming → before = [] →
      lexeme.token = .closing → result = .error (.wanted lexeme.start) →
      Passage before lexemes ending result

theorem Passage.cons {before : List Token} {lexeme : Lexeme} {rest : List Lexeme}
    {ending : Ending} {result : Except Complaint Reading}
    (h : Passage (before ++ [lexeme.token]) rest ending result) :
    Passage before (lexeme :: rest) ending result := by
  cases h with
  | inside hpending hpassed hresult =>
    exact .inside hpending (by rw [hpassed, List.append_assoc]; rfl) hresult
  | @complete _ seen coming hrest ht htokens hresult =>
    have hsplit : lexeme :: rest = lexeme :: seen ++ coming := by rw [hrest, List.cons_append]
    refine .complete hsplit ht ?_ hresult
    rw [htokens, List.append_assoc]
    rfl
  | stuck _ hbefore _ _ => simp at hbefore

theorem readTokens_passage {lexemes : List Lexeme} {ending : Ending} :
    ∀ {pending : List (List Reading)}, ProperStack pending →
      Passage (passed pending) lexemes ending (readTokens pending lexemes ending) := by
  induction lexemes with
  | nil => exact fun hpending => .inside hpending (by simp) rfl
  | cons lexeme rest ih =>
    intro pending hpending
    rw [readTokens]
    rcases Progress.step_accounts hpending lexeme.token with h | ⟨hstuck, rfl, hclosing⟩
    · cases hprogress : Progress.step pending lexeme.token with
      | inside items outer =>
        rw [hprogress] at h
        exact .cons (h.2 ▸ ih h.1)
      | complete t =>
        rw [hprogress] at h
        have hsplit : lexeme :: rest = [lexeme] ++ rest := rfl
        exact .complete hsplit h.1 h.2 rfl
      | stuck =>
        rw [hprogress] at h
        exact h.elim
    · rw [hstuck]
      exact .stuck rfl rfl hclosing rfl

/-- What has been read of a row of tokens, and what is still to come, is the row of the tree. -/
theorem readTokens_ok {pending : List (List Reading)} {lexemes : List Lexeme} {ending : Ending}
    {tree : Reading} (hpending : ProperStack pending)
    (h : readTokens pending lexemes ending = .ok tree) :
    (∃ last, ending = .finished last) ∧ tree.Proper ∧
      passed pending ++ lexemes.map Lexeme.token = tree.tokens := by
  have hpassage : Passage (passed pending) lexemes ending (.ok tree) :=
    h ▸ readTokens_passage hpending
  cases hpassage with
  | inside _ _ hresult => cases hresult
  | complete hlexemes ht htokens hresult =>
    obtain ⟨rfl, rfl, hlast⟩ := expectEnd_ok hresult.symm
    rw [List.append_nil] at hlexemes
    exact ⟨hlast, ht, by rw [hlexemes, htokens]⟩
  | stuck _ _ _ hresult => cases hresult

theorem readTokens_opening {pending : List (List Reading)} {lexeme : Lexeme}
    {rest : List Lexeme} {ending : Ending} (h : lexeme.token = .opening) :
    readTokens pending (lexeme :: rest) ending = readTokens ([] :: pending) rest ending := by
  rw [readTokens, h, Progress.step]

mutual

/-- The reader reads the tokens of a tree as that tree. -/
theorem readTokens_tokens {pending : List (List Reading)} {lexemes rest : List Lexeme}
    {ending : Ending} : (t : Reading) → t.Proper → lexemes.map Lexeme.token = t.tokens →
      readTokens pending (lexemes ++ rest) ending = resumeWith t pending rest ending
  | .number n, hproper, h => by
    obtain ⟨lexeme, rfl, hlexeme⟩ := List.map_eq_singleton_iff.1 h
    cases hproper with
    | number hn =>
      refine readTokens_atom ?_
      rw [hlexeme, Progress.step, ofWord, if_pos hn]
  | .text raw, _, h => by
    obtain ⟨lexeme, rfl, hlexeme⟩ := List.map_eq_singleton_iff.1 h
    refine readTokens_atom ?_
    rw [hlexeme, Progress.step]
  | .symbol name, hproper, h => by
    obtain ⟨lexeme, rfl, hlexeme⟩ := List.map_eq_singleton_iff.1 h
    cases hproper with
    | symbol hname =>
      refine readTokens_atom ?_
      rw [hlexeme, Progress.step, ofWord, if_neg (by simp [hname])]
  | .list items, hproper, h => by
    obtain ⟨opening, inner, rfl, hopening, hinner⟩ := List.map_eq_cons_iff.1 h
    obtain ⟨inside, last, rfl, hinside, hlast⟩ := List.map_eq_append_iff.1 hinner
    obtain ⟨closing, rfl, hclosing⟩ := List.map_eq_singleton_iff.1 hlast
    cases hproper with
    | list hitems =>
      have hread : readTokens (items.reverse :: pending) (closing :: rest) ending =
          resumeWith (.list items) pending rest ending :=
        readTokens_atom (by rw [hclosing, Progress.step, List.reverse_reverse])
      rw [List.cons_append, readTokens_opening hopening, List.append_assoc,
        readTokens_items items hitems hinside, List.append_nil]
      exact hread

/-- The reader reads the tokens of items into the innermost open list. -/
theorem readTokens_items {pending : List (List Reading)} {before : List Reading}
    {lexemes rest : List Lexeme} {ending : Ending} : (items : List Reading) → AllProper items →
      lexemes.map Lexeme.token = tokensAll items →
      readTokens (before :: pending) (lexemes ++ rest) ending =
        readTokens ((items.reverse ++ before) :: pending) rest ending
  | [], _, h => by
    obtain rfl := List.map_eq_nil_iff.1 h
    rfl
  | t :: items, hproper, h => by
    obtain ⟨first, others, rfl, hfirst, hothers⟩ := List.map_eq_append_iff.1 h
    cases hproper with
    | cons ht hitems =>
      rw [List.append_assoc, readTokens_tokens t ht hfirst, resumeWith,
        readTokens_items items hitems hothers]
      simp

end

/-! ## Rows of tokens and renderings -/

mutual

/-- A text that starts with the tokens of a tree starts with a rendering of it. -/
theorem Grammar.TokenRow.rendering {more : List Token} {text : List Char} : (t : Reading) →
    t.Proper → TokenRow (t.tokens ++ more) text →
      ∃ start rest, Trivia text start ∧ Rendering Spelled t start rest ∧ TokenRow more rest
  | .number n, hproper, h => by
    cases hproper with
    | number hn =>
      cases h with
      | token hstart hspells hrow =>
        cases hspells with
        | word _ hrest =>
          exact ⟨_, _, hstart, .number ⟨rfl, isNumeral_iff.1 hn⟩ hrest, hrow⟩
  | .text raw, _, h => by
    cases h with
    | token hstart hspells hrow =>
      cases hspells with
      | text hraw => exact ⟨_, _, hstart, .text hraw, hrow⟩
  | .symbol name, hproper, h => by
    cases hproper with
    | symbol hname =>
      cases h with
      | token hstart hspells hrow =>
        cases hspells with
        | word hword hrest =>
          have hsymbol : Symbol name.toList := ⟨hword, fun v hv => by
            rw [isNumeral_iff.2 ⟨v, hv⟩] at hname
            cases hname⟩
          exact ⟨_, _, hstart, .symbol hsymbol hrest, hrow⟩
  | .list items, hproper, h => by
    rw [tokens, List.cons_append, List.append_assoc, List.singleton_append] at h
    cases hproper with
    | list hitems =>
      cases h with
      | token hstart hspells hrow =>
        cases hspells with
        | opening =>
          obtain ⟨rest, hrendering, hrow⟩ := hrow.renderings items hitems
          exact ⟨_, _, hstart, .list hrendering, hrow⟩

theorem Grammar.TokenRow.renderings {more : List Token} {text : List Char} :
    (items : List Reading) → AllProper items →
      TokenRow (tokensAll items ++ .closing :: more) text →
      ∃ rest, Renderings Spelled items text rest ∧ TokenRow more rest
  | [], _, h => by
    cases h with
    | token hstart hspells hrow =>
      cases hspells with
      | closing => exact ⟨_, .close hstart, hrow⟩
  | t :: items, hproper, h => by
    rw [tokensAll, List.append_assoc] at h
    cases hproper with
    | cons ht hitems =>
      obtain ⟨start, after, hstart, hrendering, hrow⟩ := h.rendering t ht
      obtain ⟨rest, hrenderings, hrow⟩ := hrow.renderings items hitems
      exact ⟨rest, .item hstart hrendering hrenderings, hrow⟩

end

mutual

/-- A rendering of a tree is a row of its tokens. -/
theorem Grammar.Rendering.tokenRow {more : List Token} {start rest : List Char} :
    (t : Reading) → Rendering Spelled t start rest → TokenRow more rest →
      t.Proper ∧ ∀ {text}, Trivia text start → TokenRow (t.tokens ++ more) text
  | .number n, h, hmore => by
    cases h with
    | number hn hrest =>
      obtain ⟨rfl, v, hv⟩ := hn
      exact ⟨.number (isNumeral_iff.2 ⟨v, hv⟩), fun htext =>
        .token htext (.word hv.word hrest) hmore⟩
  | .text raw, h, hmore => by
    cases h with
    | text hraw => exact ⟨.text, fun htext => .token htext (.text hraw) hmore⟩
  | .symbol name, h, hmore => by
    cases h with
    | symbol hname hrest =>
      refine ⟨.symbol ?_, fun htext => .token htext (.word hname.toWord hrest) hmore⟩
      rw [← Bool.not_eq_true, isNumeral_iff]
      exact fun ⟨v, hv⟩ => hname.noNumeral v hv
  | .list items, h, hmore => by
    cases h with
    | list hitems =>
      obtain ⟨hproper, hrow⟩ := hitems.tokenRow items hmore
      refine ⟨.list hproper, fun htext => ?_⟩
      rw [tokens, List.cons_append, List.append_assoc, List.singleton_append]
      exact .token htext .opening hrow

theorem Grammar.Renderings.tokenRow {more : List Token} {text rest : List Char} :
    (items : List Reading) → Renderings Spelled items text rest → TokenRow more rest →
      AllProper items ∧ TokenRow (tokensAll items ++ .closing :: more) text
  | [], h, hmore => by
    cases h with
    | close htext => exact ⟨.nil, .token htext .closing hmore⟩
  | t :: items, h, hmore => by
    cases h with
    | item htext ht hitems =>
      obtain ⟨hproper, hrow⟩ := hitems.tokenRow items hmore
      obtain ⟨ht, hrow⟩ := ht.tokenRow t hrow
      refine ⟨.cons ht hproper, ?_⟩
      rw [tokensAll, List.append_assoc]
      exact hrow htext

end

/-- A text is a written form of a proper tree exactly if it is a row of the tree's tokens. -/
theorem written_iff_tokenRow {t : Reading} {text : List Char} :
    Written Spelled t text ↔ t.Proper ∧ TokenRow t.tokens text := by
  constructor
  · rintro ⟨start, rest, hstart, hrendering, hrest⟩
    obtain ⟨hproper, hrow⟩ := hrendering.tokenRow t (.done hrest)
    exact ⟨hproper, by simpa using hrow hstart⟩
  · rintro ⟨hproper, hrow⟩
    rw [← List.append_nil t.tokens] at hrow
    obtain ⟨start, rest, hstart, hrendering, hrow⟩ := hrow.rendering t hproper
    cases hrow with
    | done hrest => exact ⟨start, rest, hstart, hrendering, hrest⟩

/-- The reader accepts a text as a tree of numerals exactly if it is a written form of it. -/
theorem readTree_ok_iff {text : List Char} {t : Reading} :
    readTree text = .ok t ↔ Written Spelled t text := by
  rw [written_iff_tokenRow, ← lex_finished_iff]
  unfold readTree
  obtain ⟨lexemes, ending⟩ := lex text
  constructor
  · intro h
    obtain ⟨⟨last, rfl⟩, hproper, htokens⟩ := readTokens_ok properStack_nil h
    exact ⟨hproper, lexemes, last, rfl, htokens⟩
  · rintro ⟨hproper, lexemes', last, he, htokens⟩
    cases he
    have hread : readTokens [] (lexemes ++ []) (.finished last) = .ok t :=
      readTokens_tokens t hproper htokens
    rwa [List.append_nil] at hread

/-! ## From numerals to integers -/

namespace Tree

variable {ν μ ε : Type}

mutual

/-- The numbers of a tree, from left to right. -/
def numbers : Tree ν → List ν
  | .number n => [n]
  | .text _ | .symbol _ => []
  | .list items => numbersAll items

/-- The numbers of the items of a list. -/
def numbersAll : List (Tree ν) → List ν
  | [] => []
  | t :: items => numbers t ++ numbersAll items

end

/-- The row has a first number that cannot be read. -/
def FirstError (read : ν → Except ε μ) (numbers : List ν) (e : ε) : Prop :=
  ∃ before n after, numbers = before ++ n :: after ∧ (∀ m ∈ before, ∃ v, read m = .ok v) ∧
    read n = .error e

theorem FirstError.append {read : ν → Except ε μ} {numbers more : List ν} {e : ε} :
    FirstError read (numbers ++ more) e ↔
      FirstError read numbers e ∨
        (∀ m ∈ numbers, ∃ v, read m = .ok v) ∧ FirstError read more e := by
  constructor
  · rintro ⟨before, n, after, hsplit, hbefore, hn⟩
    rcases List.append_eq_append_iff.1 hsplit with ⟨rest, rfl, hrest⟩ | ⟨rest, rfl, hrest⟩
    · exact .inr ⟨fun m hm => hbefore m (by simp [hm]), rest, n, after, hrest,
        fun m hm => hbefore m (by simp [hm]), hn⟩
    · cases rest with
      | nil =>
        exact .inr ⟨fun m hm => hbefore m (by simpa using hm), [], n, after,
          by simpa using hrest.symm, by simp, hn⟩
      | cons k rest =>
        obtain ⟨rfl, -⟩ := List.cons.inj hrest
        exact .inl ⟨before, n, rest, rfl, hbefore, hn⟩
  · rintro (⟨before, n, after, rfl, hbefore, hn⟩ | ⟨hall, before, n, after, rfl, hbefore, hn⟩)
    · exact ⟨before, n, after ++ more, by simp, hbefore, hn⟩
    · refine ⟨numbers ++ before, n, after, by simp, fun m hm => ?_, hn⟩
      rcases List.mem_append.1 hm with hm | hm
      · exact hall m hm
      · exact hbefore m hm

mutual

/-- The numbers of a tree are read one after the other, up to the first that cannot be read. -/
theorem mapNumbers_iff (read : ν → Except ε μ) : (t : Tree ν) →
    ((∃ t', t.mapNumbers read = .ok t') ↔ ∀ n ∈ t.numbers, ∃ v, read n = .ok v) ∧
      ∀ e, t.mapNumbers read = .error e ↔ FirstError read t.numbers e
  | .number n => by
    rw [mapNumbers, numbers]
    cases hn : read n with
    | error e =>
      refine ⟨by simp [hn, bind, Except.bind], fun e' => ⟨fun h => ?_, ?_⟩⟩
      · cases h
        exact ⟨[], n, [], rfl, by simp, hn⟩
      · rintro ⟨before, m, after, hsplit, -, hm⟩
        have hmem : m ∈ [n] := by simp [hsplit]
        obtain rfl := List.mem_singleton.1 hmem
        rw [hn] at hm
        cases hm
        rfl
    | ok v =>
      refine ⟨by simp [hn, bind, Except.bind, pure, Except.pure], fun e => ⟨fun h => ?_, ?_⟩⟩
      · cases h
      · rintro ⟨before, m, after, hsplit, -, hm⟩
        have hmem : m ∈ [n] := by simp [hsplit]
        obtain rfl := List.mem_singleton.1 hmem
        rw [hn] at hm
        cases hm
  | .text raw => by simp [mapNumbers, numbers, FirstError]
  | .symbol name => by simp [mapNumbers, numbers, FirstError]
  | .list items => by
    obtain ⟨hok, herror⟩ := mapAllNumbers_iff read items
    rw [mapNumbers, numbers, ← hok]
    refine ⟨?_, fun e => ?_⟩
    · cases mapAllNumbers read items <;> simp [bind, Except.bind, pure, Except.pure]
    · rw [← herror e]
      cases mapAllNumbers read items <;> simp [bind, Except.bind, pure, Except.pure]

theorem mapAllNumbers_iff (read : ν → Except ε μ) : (items : List (Tree ν)) →
    ((∃ items', mapAllNumbers read items = .ok items') ↔
        ∀ n ∈ numbersAll items, ∃ v, read n = .ok v) ∧
      ∀ e, mapAllNumbers read items = .error e ↔ FirstError read (numbersAll items) e
  | [] => by simp [mapAllNumbers, numbersAll, FirstError]
  | t :: items => by
    obtain ⟨hok, herror⟩ := mapNumbers_iff read t
    obtain ⟨hoks, herrors⟩ := mapAllNumbers_iff read items
    rw [mapAllNumbers, numbersAll]
    simp only [List.forall_mem_append, FirstError.append, ← hok, ← herror, ← hoks, ← herrors]
    cases mapNumbers read t <;> cases mapAllNumbers read items <;>
      simp [bind, Except.bind, pure, Except.pure]

end

end Tree

section

variable {ν : Type} {number : List Char → ν → Prop} {read : String → Except String ν}

mutual

/-- Reading the numerals of a rendered tree leaves a rendered tree of numbers. -/
theorem Grammar.Rendering.read
    (hread : ∀ {numeral n v}, Spelled numeral n → read n = .ok v → number numeral v)
    {start rest : List Char} {e : Tree ν} : (t : Reading) → Rendering Spelled t start rest →
      t.mapNumbers read = .ok e → Rendering number e start rest
  | .number n, h, he => by
    rw [Tree.mapNumbers] at he
    cases hn : read n with
    | error => simp [hn, bind, Except.bind] at he
    | ok v =>
      rw [hn] at he
      cases he
      cases h with
      | number hspelled hrest => exact .number (hread hspelled hn) hrest
  | .text raw, h, he => by
    cases he
    cases h with
    | text hraw => exact .text hraw
  | .symbol name, h, he => by
    cases he
    cases h with
    | symbol hname hrest => exact .symbol hname hrest
  | .list items, h, he => by
    rw [Tree.mapNumbers] at he
    cases hitems : Tree.mapAllNumbers read items with
    | error => simp [hitems, bind, Except.bind] at he
    | ok es =>
      rw [hitems] at he
      cases he
      cases h with
      | list h => exact .list (h.read hread items hitems)

theorem Grammar.Renderings.read
    (hread : ∀ {numeral n v}, Spelled numeral n → read n = .ok v → number numeral v)
    {text rest : List Char} {es : List (Tree ν)} : (items : List Reading) →
      Renderings Spelled items text rest → Tree.mapAllNumbers read items = .ok es →
      Renderings number es text rest
  | [], h, hes => by
    cases hes
    cases h with
    | close htext => exact .close htext
  | t :: items, h, hes => by
    rw [Tree.mapAllNumbers] at hes
    cases ht : t.mapNumbers read with
    | error => simp [ht, bind, Except.bind] at hes
    | ok e =>
      cases hitems : Tree.mapAllNumbers read items with
      | error => simp [ht, hitems, bind, Except.bind] at hes
      | ok es =>
        rw [ht, hitems] at hes
        cases hes
        cases h with
        | item htext h h' => exact .item htext (h.read hread t ht) (h'.read hread items hitems)

end

mutual

/-- The numerals of a rendered tree of numbers can be read. -/
theorem Grammar.Rendering.spelled
    (hspelled : ∀ {numeral v}, number numeral v →
      Spelled numeral (String.ofList numeral) ∧ read (String.ofList numeral) = .ok v)
    {start rest : List Char} : (e : Tree ν) → Rendering number e start rest →
      ∃ t : Reading, Rendering Spelled t start rest ∧ t.mapNumbers read = .ok e
  | .number v, h => by
    cases h with
    | @number _ numeral _ hv hrest =>
      obtain ⟨hnumeral, hread⟩ := hspelled hv
      refine ⟨.number (String.ofList numeral), .number hnumeral hrest, ?_⟩
      rw [Tree.mapNumbers, hread]
      rfl
  | .text raw, h => by
    cases h with
    | text hraw => exact ⟨.text raw, .text hraw, rfl⟩
  | .symbol name, h => by
    cases h with
    | symbol hname hrest => exact ⟨.symbol name, .symbol hname hrest, rfl⟩
  | .list es, h => by
    cases h with
    | list h =>
      obtain ⟨items, hitems, hread⟩ := h.spelled hspelled es
      refine ⟨.list items, .list hitems, ?_⟩
      rw [Tree.mapNumbers, hread]
      rfl

theorem Grammar.Renderings.spelled
    (hspelled : ∀ {numeral v}, number numeral v →
      Spelled numeral (String.ofList numeral) ∧ read (String.ofList numeral) = .ok v)
    {text rest : List Char} : (es : List (Tree ν)) → Renderings number es text rest →
      ∃ items : List Reading, Renderings Spelled items text rest ∧
        Tree.mapAllNumbers read items = .ok es
  | [], h => by
    cases h with
    | close htext => exact ⟨[], .close htext, rfl⟩
  | e :: es, h => by
    cases h with
    | item htext h h' =>
      obtain ⟨t, ht, hread⟩ := h.spelled hspelled e
      obtain ⟨items, hitems, hreads⟩ := h'.spelled hspelled es
      refine ⟨t :: items, .item htext ht hitems, ?_⟩
      rw [Tree.mapAllNumbers, hread, hreads]
      rfl

end

end

/-! ## Integers of 64 bits -/

/-- A numeral is read as the integer that it denotes, if that has 64 bits. -/
theorem numeral64_ok_iff {numeral : String} {v : Int} (h : Numeral numeral.toList v) {n : Int64} :
    numeral64 numeral = .ok n ↔ n.toInt = v := by
  unfold numeral64
  simp only [h.value_eq]
  constructor
  · intro hn
    split at hn
    · next hrange =>
      cases hn
      exact Int64.toInt_ofInt_of_le (by omega) (by omega)
    · cases hn
  · rintro rfl
    have hlow := n.le_toInt
    have hhigh := n.toInt_lt
    rw [if_pos (by omega), Int64.ofInt_toInt]

/-- A numeral that denotes an integer of more bits is handed back. -/
theorem numeral64_error_iff {numeral : String} {v : Int} (h : Numeral numeral.toList v)
    {other : String} : numeral64 numeral = .error other ↔ other = numeral ∧ ¬ InRange v := by
  unfold numeral64 InRange
  simp only [h.value_eq]
  split
  · next hrange => simp [hrange]
  · next hrange => simp [hrange, eq_comm]

/-- The numeral of a 64-bit integer is a numeral, and is read as that integer. -/
theorem Grammar.Denotes.spelled {numeral : List Char} {n : Int64} (h : Denotes numeral n) :
    Spelled numeral (String.ofList numeral) ∧ numeral64 (String.ofList numeral) = .ok n := by
  have hnumeral : Numeral (String.ofList numeral).toList n.toInt := by
    rw [String.toList_ofList]
    exact h
  exact ⟨⟨String.toList_ofList.symm, _, h⟩, (numeral64_ok_iff hnumeral).2 rfl⟩

/-! ## Reading expressions -/

/-- The reader accepts a text as an expression exactly if it is a written form of it. -/
theorem readExpr_ok_iff {text : String} {e : Expr} :
    readExpr text = .ok e ↔ Written Denotes e text.toList := by
  constructor
  · intro h
    unfold readExpr at h
    split at h
    · cases h
    · next t ht =>
      split at h
      · cases h
      · next he =>
        cases h
        obtain ⟨start, rest, hstart, hrendering, hrest⟩ := readTree_ok_iff.1 ht
        refine ⟨start, rest, hstart, hrendering.read ?_ t he, hrest⟩
        rintro numeral n v ⟨rfl, w, hw⟩ hn
        obtain rfl := (numeral64_ok_iff hw).1 hn
        exact hw
  · rintro ⟨start, rest, hstart, hrendering, hrest⟩
    obtain ⟨t, ht, he⟩ := hrendering.spelled Denotes.spelled e
    have htree : readTree text.toList = .ok t := readTree_ok_iff.2 ⟨start, rest, hstart, ht, hrest⟩
    unfold readExpr
    rw [htree]
    simp only [he]

namespace Reading

mutual

/-- The numbers of a tree are its words that are numerals. -/
theorem mem_numbers_iff {n : String} : (t : Reading) → t.Proper →
    (n ∈ t.numbers ↔ .word n ∈ t.tokens ∧ isNumeral n.toList = true)
  | .number m, h => by
    cases h with
    | number hm =>
      simp only [Tree.numbers, tokens, List.mem_singleton, Token.word.injEq]
      exact ⟨by rintro rfl; exact ⟨rfl, hm⟩, And.left⟩
  | .text _, _ => by simp [Tree.numbers, tokens]
  | .symbol name, h => by
    cases h with
    | symbol hname =>
      simp only [Tree.numbers, tokens, List.mem_singleton, Token.word.injEq, List.not_mem_nil,
        false_iff, not_and]
      rintro rfl
      simp [hname]
  | .list items, h => by
    cases h with
    | list h => simp [Tree.numbers, tokens, mem_numbersAll_iff items h]

theorem mem_numbersAll_iff {n : String} : (items : List Reading) → AllProper items →
    (n ∈ Tree.numbersAll items ↔ .word n ∈ tokensAll items ∧ isNumeral n.toList = true)
  | [], _ => by simp [Tree.numbersAll, tokensAll]
  | t :: items, h => by
    cases h with
    | cons ht hitems =>
      rw [Tree.numbersAll, tokensAll, List.mem_append, List.mem_append, mem_numbers_iff t ht,
        mem_numbersAll_iff items hitems, or_and_right]

end

/-- The numeral is the first of the tree that denotes no integer of 64 bits. -/
def FirstTooLarge (t : Reading) (numeral : String) : Prop :=
  ∃ before after, t.numbers = before ++ numeral :: after ∧
    (∀ n ∈ before, ∃ v, Numeral n.toList v ∧ InRange v) ∧
    ∃ v, Numeral numeral.toList v ∧ ¬ InRange v

/-- Turning the numerals into integers fails at the first that is too large. -/
theorem mapNumbers_error_iff {t : Reading} (ht : t.Proper) {numeral : String} :
    t.mapNumbers numeral64 = .error numeral ↔ t.FirstTooLarge numeral := by
  have hnumeral {n : String} (hn : n ∈ t.numbers) : ∃ v, Numeral n.toList v :=
    isNumeral_iff.1 ((mem_numbers_iff t ht).1 hn).2
  rw [(Tree.mapNumbers_iff numeral64 t).2]
  constructor
  · rintro ⟨before, n, after, hsplit, hbefore, hn⟩
    obtain ⟨v, hv⟩ := hnumeral (n := n) (by simp [hsplit])
    obtain ⟨rfl, hlarge⟩ := (numeral64_error_iff hv).1 hn
    refine ⟨before, after, hsplit, fun m hm => ?_, v, hv, hlarge⟩
    obtain ⟨w, hw⟩ := hnumeral (n := m) (by simp [hsplit, hm])
    refine ⟨w, hw, Classical.not_not.1 fun hlarge => ?_⟩
    obtain ⟨k, hk⟩ := hbefore m hm
    rw [(numeral64_error_iff hw).2 ⟨rfl, hlarge⟩] at hk
    cases hk
  · rintro ⟨before, after, hsplit, hbefore, v, hv, hlarge⟩
    refine ⟨before, numeral, after, hsplit, fun m hm => ?_,
      (numeral64_error_iff hv).2 ⟨rfl, hlarge⟩⟩
    obtain ⟨w, hw, hrange⟩ := hbefore m hm
    cases hm' : numeral64 m with
    | ok k => exact ⟨k, rfl⟩
    | error other => exact absurd hrange ((numeral64_error_iff hw).1 hm').2

end Reading

/-- The reader follows the grammar. It accepts a text as an expression exactly if the text is a
written form of it; and it complains about the size of a numeral exactly if the text is a written
form of a tree of numerals, and this is the first that is too large. -/
theorem readExpr_follows_grammar (text : String) :
    (∀ e : Expr, readExpr text = .ok e ↔ Written Denotes e text.toList) ∧
    ∀ numeral, readExpr text = .error (.numeralTooLarge numeral) ↔
      ∃ t : Reading, Written Spelled t text.toList ∧ t.FirstTooLarge numeral := by
  refine ⟨fun e => readExpr_ok_iff, fun numeral => ?_⟩
  constructor
  · intro h
    unfold readExpr at h
    split at h
    · cases h
    · next t ht =>
      have hwritten := readTree_ok_iff.1 ht
      split at h
      · next he =>
        cases h
        exact ⟨t, hwritten, (Reading.mapNumbers_error_iff (written_iff_tokenRow.1 hwritten).1).1 he⟩
      · cases h
  · rintro ⟨t, hwritten, hlarge⟩
    have he := (Reading.mapNumbers_error_iff (written_iff_tokenRow.1 hwritten).1).2 hlarge
    unfold readExpr
    rw [readTree_ok_iff.2 hwritten]
    simp only [he]

end SexprSsa
