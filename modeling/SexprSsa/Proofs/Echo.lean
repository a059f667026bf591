/-
SexprSsa.Proofs.Echo — a program for every text.

A text goes through three codes on its way from a program to the output. The
literal that holds it is cut out of the source at its closing quote, the
escapes in the literal are decoded when the program is compiled, and the
format that is left is read for conversions when it is printed. Doubling every
percent sign and putting a backslash before every backslash and every quote is
enough to get any text through all three.

Each of the codes is undone character by character, so one induction over the
text does for each: `raw_literalOf` for the lexer, `unescapeChars_literalOf`
for the decoder and `format_formatOf` for the printer.

Main statement: `run_echo`, the program that prints the literal of a text
compiles, holds this text as its only string and prints it as it was.
-/
import SexprSsa.Proofs.Reading
import SexprSsa.Proofs.Steps
import SexprSsa.Compile.Program

namespace SexprSsa

open Grammar Machine

/-! ## The two spellings of a text -/

/-- A character in a format: the percent sign is doubled. -/
def formatChar (c : Char) : List Char := if c = '%' then ['%', '%'] else [c]

/-- The format that prints a text. -/
def formatOf (text : List Char) : List Char := text.flatMap formatChar

/-- A character in a literal that is used as a format: the percent sign is doubled, and a backslash
stands before a backslash and before a quote. -/
def literalChar (c : Char) : List Char :=
  if c = '%' then ['%', '%'] else if c = '\\' ∨ c = '"' then ['\\', c] else [c]

/-- What stands between the quotes of the literal for the format that prints a text. -/
def literalOf (text : List Char) : List Char := text.flatMap literalChar

/-- Any other character stands for itself in both spellings. -/
theorem formatChar_cases {motive : Char → Prop} (c : Char) (percent : motive '%')
    (slash : motive '\\') (quote : motive '"')
    (plain : ∀ c, c ≠ '%' → c ≠ '\\' → c ≠ '"' → motive c) : motive c := by
  by_cases hpercent : c = '%'
  · exact hpercent ▸ percent
  · by_cases hslash : c = '\\'
    · exact hslash ▸ slash
    · by_cases hquote : c = '"'
      · exact hquote ▸ quote
      · exact plain c hpercent hslash hquote

/-! ## Three codes -/

/-- The literal of a text has no bare quote in it, and no backslash is left over at its end. -/
theorem raw_literalOf (text : List Char) : Raw (literalOf text) := by
  induction text with
  | nil => exact .nil
  | cons c text ih =>
    rw [literalOf, List.flatMap_cons]
    change Raw (literalChar c ++ literalOf text)
    induction c using formatChar_cases with
    | percent => exact .plain (by decide) (by decide) (.plain (by decide) (by decide) ih)
    | slash => exact .pair ih
    | quote => exact .pair ih
    | plain c hpercent hslash hquote =>
      simp only [literalChar, hpercent, hslash, hquote, or_self, if_false]
      exact .plain hquote hslash ih

theorem unescapeChars_cons {c : Char} (h : c ≠ '\\') (rest : List Char) :
    unescapeChars (c :: rest) = c :: unescapeChars rest := by
  rw [unescapeChars]
  rintro d tail rfl
  exact absurd rfl h

/-- Decoding the literal of a text gives the format that prints it: no escape of the literal is
other than those that were put in, whatever follows them in the text. -/
theorem unescapeChars_literalOf (text : List Char) :
    unescapeChars (literalOf text) = formatOf text := by
  induction text with
  | nil => rfl
  | cons c text ih =>
    rw [literalOf, formatOf, List.flatMap_cons, List.flatMap_cons]
    change unescapeChars (literalChar c ++ literalOf text) = formatChar c ++ formatOf text
    rw [← ih]
    induction c using formatChar_cases with
    | percent =>
      change unescapeChars ('%' :: '%' :: literalOf text) = _
      rw [unescapeChars_cons (by decide), unescapeChars_cons (by decide)]
      rfl
    | slash => rfl
    | quote => rfl
    | plain c hpercent hslash hquote =>
      simp only [literalChar, formatChar, hpercent, hslash, hquote, or_self, if_false]
      exact unescapeChars_cons hslash _

theorem format_cons {c : Char} (h : c ≠ '%') (m : Module) (rest : List Char)
    (args : List Value) : format m (c :: rest) args = (do return c :: (← format m rest args)) := by
  rw [format]
  all_goals
    intros
    simp_all

/-- The format of a text prints the text, in any module and without taking an argument. -/
theorem format_formatOf (m : Module) (text : List Char) (args : List Value) :
    format m (formatOf text) args = .ok text := by
  induction text with
  | nil => rfl
  | cons c text ih =>
    rw [formatOf, List.flatMap_cons]
    change format m (formatChar c ++ formatOf text) args = _
    by_cases hpercent : c = '%'
    · subst hpercent
      change format m ('%' :: '%' :: formatOf text) args = _
      rw [format, ih]
      rfl
    · simp only [formatChar, hpercent, if_false, List.singleton_append]
      rw [format_cons hpercent, ih]
      rfl

/-! ## The program -/

/-- The program that prints a text. -/
def echoSource (text : String) : String :=
  "(printf \"" ++ String.ofList (literalOf text.toList) ++ "\")"

/-- The program as it is read, around a literal. -/
def echoProgram (raw : String) : Expr :=
  .list [.symbol "begin", .list [.symbol "printf", .text raw]]

/-- What the reader's tests take for a word and not for a numeral is a symbol. -/
theorem symbol_of_tests {w : List Char} (hne : w ≠ []) (hplain : w.all isWordChar = true)
    (hcomment : startsComment w = false) (hnumeral : isNumeral w = false) : Symbol w where
  ne_nil := hne
  plain c hc := isWordChar_iff.1 (List.all_eq_true.1 hplain c hc)
  noComment := by
    intro ⟨rest, hrest⟩
    rw [startsComment_iff.2 ⟨rest, hrest.symm⟩] at hcomment
    cases hcomment
  noNumeral v hv := by
    rw [isNumeral_iff.2 ⟨v, hv⟩] at hnumeral
    cases hnumeral

/-- The program is read with the literal of the text as it stands, up to its closing quote. -/
theorem readProgram_echoSource (text : String) :
    readProgram (echoSource text) =
      .ok (echoProgram (String.ofList (literalOf text.toList))) := by
  have hraw : Raw (String.ofList (literalOf text.toList)).toList := by
    rw [String.toList_ofList]
    exact raw_literalOf _
  have hprintf : Symbol "printf".toList :=
    symbol_of_tests (by decide) (by decide) (by decide) (by decide)
  have hbegin : Symbol "begin".toList :=
    symbol_of_tests (by decide) (by decide) (by decide) (by decide)
  -- The list of the source, and around it the list that makes it a program.
  have hprint (rest : List Char) : Rendering Denotes
      (.list [.symbol "printf", .text (String.ofList (literalOf text.toList))]) _ rest :=
    .list <| .item .nil (.symbol hprintf (bounded_cons.2 (by simp [Delimiter]))) <|
      .item (.blank (List.mem_cons_self ..) .nil) (.text hraw) (.close .nil)
  have hprogram : Rendering Denotes (echoProgram (String.ofList (literalOf text.toList))) _ [] :=
    .list <| .item .nil (.symbol hbegin (bounded_cons.2 (by simp [Delimiter]))) <|
      .item (.blank (List.mem_cons_self ..) .nil) (hprint _) <|
      .close (.blank (c := '\n') (by simp) .nil)
  refine readExpr_ok_iff.2 ⟨_, [], .nil, ?_, .nil⟩
  simpa [wrapProgram, echoSource, echoProgram] using hprogram

/-! ## The module and its run -/

/-- The body of the entry function: one call and the return. -/
def echoBody : Body where
  entry := ⟨0⟩
  blocks := Table.empty.insert ⟨0⟩
    ⟨⟨0⟩, "entry", [.call ⟨0⟩ printName [.str ⟨0⟩]], .ret (some (.const (.int 0)))⟩
  layout := [⟨0⟩]
  slots := []
  nextBlock := 1
  nextValue := 1

/-- The module that prints with a format. -/
def echoModule (format : String) : Module where
  name := "eva"
  globals := Table.empty.insert "VERSION" ⟨⟨0⟩, "VERSION", .i32, .int 42, false, 4⟩
  strings := [⟨⟨0⟩, format⟩]
  functions := (Table.empty.insert printName (.declared printSignature)).insert "main"
    ⟨⟨"main", [], .i32, false⟩, some echoBody⟩

theorem compileExpr_echoProgram (raw : String) :
    compileExpr .standard (echoProgram raw) = .ok (echoModule (unescape raw)) := by
  rfl

theorem compile_echoSource (text : String) :
    compile .standard (echoSource text) =
      .ok (echoModule (String.ofList (formatOf text.toList))) := by
  unfold compile
  rw [readProgram_echoSource]
  change compileExpr .standard (echoProgram _) = _
  rw [compileExpr_echoProgram, unescape, String.toList_ofList, unescapeChars_literalOf]

/-- The module prints what its format makes of no arguments, in a run of two steps. -/
theorem run_echoModule {fmt text : String}
    (h : format (echoModule fmt) fmt.toList [] = .ok text.toList) :
    run (echoModule fmt) defaultLimit "main" = .ok ⟨some (.int 0), text, 2⟩ := by
  have hprint : print (echoModule fmt) [.ptr (.str ⟨0⟩)] = .ok text := by
    change (do return String.ofList (← format (echoModule fmt) fmt.toList [])) = _
    rw [h]
    exact congrArg Except.ok String.ofList_toList
  have hcall : invoke (echoModule fmt) printName [.ptr (.str ⟨0⟩)] =
      .ok (.provided text (printResult text)) := by
    change (do
      let text ← print (echoModule fmt) [.ptr (.str ⟨0⟩)]
      return Invocation.provided text (printResult text)) = _
    rw [hprint]
    rfl
  let start : Frame :=
    ⟨echoBody, ⟨0⟩, [.call ⟨0⟩ printName [.str ⟨0⟩]], .ret (some (.const (.int 0))), none, ∅, ∅⟩
  let c : Config := .initial (echoModule fmt) start
  let c' : Config :=
    { c with frame := { start with code := [] }, output := text }.assign ⟨0⟩ (printResult text)
  have hinvoke : invoke (echoModule fmt) "main" [] = .ok (.entered start) := by rfl
  have hstep : c.step (echoModule fmt) = .ok (.running c') := by
    unfold Config.step Config.execute
    change ((invoke (echoModule fmt) printName [.ptr (.str ⟨0⟩)] >>= _) >>= _) = _
    rw [hcall]
    rfl
  have hhalt : c'.step (echoModule fmt) = .ok (.halted (some (.int 0)) text) := by rfl
  unfold run
  rw [hinvoke]
  change resume (echoModule fmt) defaultLimit (1 + (999998 + 1)) c = _
  rw [resume_of_steps (.single hstep), resume, hhalt]
  rfl

/-- **Every text has a program that prints it.** The program whose only expression prints the
literal of a text compiles; the module has the one string that is the text with its percent signs
doubled, and a run of it prints the text as it was. -/
theorem run_echo (text : String) : ∃ m, compile .standard (echoSource text) = .ok m ∧
    m.strings.map StrConst.value = [String.ofList (formatOf text.toList)] ∧
    run m defaultLimit "main" = .ok ⟨some (.int 0), text, 2⟩ := by
  refine ⟨_, compile_echoSource text, rfl, run_echoModule ?_⟩
  rw [String.toList_ofList]
  exact format_formatOf _ _ _

end SexprSsa
