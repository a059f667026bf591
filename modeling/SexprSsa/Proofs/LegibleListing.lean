/-
SexprSsa.Proofs.LegibleListing — what a listing says.

Terminators, blocks and strings say what they are and where they end
(`Legible`), so the rows of blocks and of strings do. An instruction is never
taken for a terminator, nor a string for a declaration, by its first characters.
The rest of a listing is the same for all modules that are compiled with the
standard options (`Module.Plain`).

Main statement: `Module.Plain.laidOut_of_render`. Listings that are the same show
the same strings and the same blocks.
-/
import SexprSsa.Proofs.Flow
import SexprSsa.Proofs.LegibleInstr

namespace SexprSsa

section
variable {m : Module}

/-! ## Terminators and blocks -/

/-- The terminator is there and its operands are plain. -/
structure Terminator.Plain (t : Terminator) : Prop where
  operands : ∀ v ∈ t.operands, v.Plain
  ends : t ≠ .missing

theorem legible_terminator (hm : m.globals = standardGlobals) :
    Legible Terminator.Plain LineEnds fun t => letters (t.listing m) := by
  intro t t' rest rest' ht ht' hrest hrest' h
  have hops := ht.operands
  have hops' := ht'.operands
  cases t with
  | missing => exact absurd rfl ht.ends
  | jump target =>
    cases t' with
    | missing => exact absurd rfl ht'.ends
    | jump target' =>
      obtain ⟨hindex, hafter⟩ := legible_digits trivial trivial hrest.stops hrest'.stops
        (by simpa [Terminator.listing] using h)
      exact ⟨congrArg (fun index => Terminator.jump ⟨index⟩) hindex, hafter⟩
    | branch condition yes no => simp [Terminator.listing] at h
    | ret value => cases value <;> simp [Terminator.listing] at h
  | branch condition yes no =>
    cases t' with
    | missing => exact absurd rfl ht'.ends
    | jump target => simp [Terminator.listing] at h
    | branch condition' yes' no' =>
      have htext : letters (condition.listing m) ++ ',' :: ' ' :: 'b' :: 'l' :: 'o' :: 'c' :: 'k' ::
            (Nat.toDigits 10 yes.index ++ ',' :: ' ' :: 'b' :: 'l' :: 'o' :: 'c' :: 'k' ::
              (Nat.toDigits 10 no.index ++ rest)) =
          letters (condition'.listing m) ++ ',' :: ' ' :: 'b' :: 'l' :: 'o' :: 'c' :: 'k' ::
            (Nat.toDigits 10 yes'.index ++ ',' :: ' ' :: 'b' :: 'l' :: 'o' :: 'c' :: 'k' ::
              (Nat.toDigits 10 no'.index ++ rest')) := by
        simpa [Terminator.listing] using h
      obtain ⟨rfl, hyes⟩ := legible_operand hm (hops condition (by simp [Terminator.operands]))
        (hops' condition' (by simp [Terminator.operands])) (by simp [inWord]) (by simp [inWord])
        htext
      simp only [List.cons.injEq, true_and] at hyes
      obtain ⟨hindex, hno⟩ := legible_digits trivial trivial (by simp [inWord]) (by simp [inWord])
        hyes
      simp only [List.cons.injEq, true_and] at hno
      obtain ⟨hindex', hafter⟩ := legible_digits trivial trivial hrest.stops hrest'.stops hno
      exact ⟨congrArg₂ (fun a b => Terminator.branch condition ⟨a⟩ ⟨b⟩) hindex hindex', hafter⟩
    | ret value => cases value <;> simp [Terminator.listing] at h
  | ret value =>
    cases t' with
    | missing => exact absurd rfl ht'.ends
    | jump target => cases value <;> simp [Terminator.listing] at h
    | branch condition yes no => cases value <;> simp [Terminator.listing] at h
    | ret value' =>
      cases value with
      | none =>
        cases value' with
        | none => exact ⟨rfl, by simpa [Terminator.listing] using h⟩
        | some w =>
          obtain rfl : rest = ' ' :: (letters (w.listing m) ++ rest') := by
            simpa [Terminator.listing] using h
          exact absurd hrest (by simp [LineEnds])
      | some v =>
        cases value' with
        | none =>
          obtain rfl : ' ' :: (letters (v.listing m) ++ rest) = rest' := by
            simpa [Terminator.listing] using h
          exact absurd hrest' (by simp [LineEnds])
        | some w =>
          obtain ⟨rfl, hafter⟩ := legible_operand hm (hops v (by simp [Terminator.operands]))
            (hops' w (by simp [Terminator.operands])) hrest.stops hrest'.stops
            (by simpa [Terminator.listing] using h)
          exact ⟨rfl, hafter⟩

/-- The name stays on its line; instructions and terminator are plain. -/
structure Block.Plain (b : Block) : Prop where
  name : '\n' ∉ b.name.toList
  instrs : ∀ i ∈ b.instrs, i.Plain
  terminator : b.terminator.Plain

/-- The characters of a line of a block. -/
theorem letters_indented (line : StyledText) :
    letters (indented .standard line) = ' ' :: ' ' :: ' ' :: ' ' :: (letters line ++ ['\n']) := by
  simp [indented, ListingStyle.standard, Indent.render]

/-- What follows is the line of a terminator. -/
def Terminates (rest : List Char) : Prop :=
  ∃ c more, rest = ' ' :: ' ' :: ' ' :: ' ' :: c :: more ∧ c ∈ ['j', 'b', 'r']

theorem legible_instrs (hm : m.globals = standardGlobals) :
    Legible (fun is : List Instr => ∀ i ∈ is, i.Plain) Terminates
      fun is => letters (is.flatMap fun i => indented .standard (i.listing .standard m)) := by
  have hline : Legible Instr.Plain Anything fun i =>
      letters (indented .standard (i.listing .standard m)) := by
    intro i i' rest rest' hi hi' _ _ h
    have htext : letters (i.listing .standard m) ++ '\n' :: rest =
        letters (i'.listing .standard m) ++ '\n' :: rest' := by
      simpa [letters_indented] using h
    obtain ⟨rfl, hafter⟩ := legible_instr hm hi hi' (lineEnds_newline _) (lineEnds_newline _) htext
    exact ⟨rfl, (List.cons.inj hafter).2⟩
  have hsign (i : Instr) (rest : List Char) :
      ¬ Terminates (letters (indented .standard (i.listing .standard m)) ++ rest) := by
    rintro ⟨c, more, h, hc⟩
    have htext : letters (i.listing .standard m) ++ '\n' :: rest = c :: more := by
      simpa [letters_indented] using h
    have hhead := congrArg List.head? htext
    cases hr : i.result? with
    | none =>
      obtain rfl : 's' = c := by simpa [head?_of_no_result hr] using hhead
      exact absurd hc (by decide)
    | some r =>
      obtain rfl : 'v' = c := by simpa [Instr.letters_of_result hr] using hhead
      exact absurd hc (by decide)
  simpa only [letters_flatMap] using
    hline.flatMap (fun _ => trivial) (fun _ _ => trivial) fun rest _ => hsign _ rest

theorem terminates_terminator {t : Terminator} (ht : t ≠ .missing) (rest : List Char) :
    Terminates (letters (indented .standard (t.listing m)) ++ rest) := by
  rw [letters_indented]
  cases t with
  | jump target => exact ⟨'j', _, by simp [Terminator.listing]; rfl, by decide⟩
  | branch condition yes no => exact ⟨'b', _, by simp [Terminator.listing]; rfl, by decide⟩
  | ret value => cases value <;> exact ⟨'r', _, by simp [Terminator.listing]; rfl, by decide⟩
  | missing => exact absurd rfl ht

/-- A block is told from the rest of the text. -/
theorem legible_block (hm : m.globals = standardGlobals) :
    Legible Block.Plain Anything fun b => letters (b.listing .standard m) := by
  rintro ⟨⟨n⟩, name, instrs, t⟩ ⟨⟨n'⟩, name', instrs', t'⟩ rest rest' hb hb' - - h
  have htext (b : Block) (rest : List Char) : letters (b.listing .standard m) ++ rest =
      'b' :: 'l' :: 'o' :: 'c' :: 'k' :: (Nat.toDigits 10 b.id.index ++ ':' :: ' ' :: ' ' :: ';' ::
        ' ' :: (b.name.toList ++ '\n' ::
          (letters (b.instrs.flatMap fun i => indented .standard (i.listing .standard m)) ++
            (letters (indented .standard (b.terminator.listing m)) ++ rest)))) := by
    simp [Block.listing, Block.label, ListingStyle.standard, commentSpan]
  simp only [htext, List.cons.injEq, true_and] at h
  obtain ⟨rfl, hname⟩ := legible_digits trivial trivial (by simp [inWord]) (by simp [inWord]) h
  simp only [List.cons.injEq, true_and] at hname
  obtain ⟨rfl, hinstrs⟩ := legible_name hb.name hb'.name (by simp) (by simp) hname
  obtain ⟨rfl, hend⟩ := legible_instrs hm hb.instrs hb'.instrs
    (terminates_terminator hb.terminator.ends _) (terminates_terminator hb'.terminator.ends _)
    (List.cons.inj hinstrs).2
  rw [letters_indented, letters_indented] at hend
  obtain ⟨rfl, hafter⟩ := legible_terminator hm hb.terminator hb'.terminator
    (lineEnds_newline rest) (lineEnds_newline rest') (by simpa using hend)
  exact ⟨rfl, (List.cons.inj hafter).2⟩

theorem letters_blocksListing (style : ListingStyle) (m : Module) (blocks : List Block) :
    letters (blocksListing style m blocks) =
      ['\n'].intercalate (blocks.map fun b => letters (b.listing style m)) := by
  induction blocks with
  | nil => rfl
  | cons b blocks ih =>
    cases blocks with
    | nil => simp [blocksListing]
    | cons b' blocks =>
      rw [List.map_cons] at ih
      rw [List.map_cons, List.map_cons, List.intercalate_cons_cons, ← ih]
      simp [blocksListing]

/-- The blocks of a function end at its brace. -/
theorem legible_blocks (hm : m.globals = standardGlobals) :
    Legible (fun blocks : List Block => ∀ b ∈ blocks, b.Plain) (fun rest => rest.head? = some '\x7d')
      fun blocks => letters (blocksListing .standard m blocks) := by
  have hrow : Legible (fun blocks : List Block => ∀ b ∈ blocks, b.Plain)
      (fun rest => rest.head? = some '\x7d') fun blocks : List Block =>
        ['\n'].intercalate (blocks.map fun b => letters (b.listing .standard m)) :=
    (legible_block hm).intercalate (fun _ => trivial) (fun _ => trivial) (by simp)
      fun rest _ => by simp [Block.listing, Block.label]
  simpa only [letters_blocksListing] using hrow

end

/-! ## Strings -/

/-- A string is told from the rest of the text, whatever it contains. -/
theorem legible_string : Legible Anything Anything fun s : StrConst => letters s.listing := by
  rintro ⟨⟨n⟩, value⟩ ⟨⟨n'⟩, value'⟩ rest rest' - - - - h
  have htext (s : StrConst) (rest : List Char) : letters s.listing ++ rest =
      's' :: 't' :: 'r' :: (Nat.toDigits 10 s.id.index ++ ' ' :: '=' :: ' ' :: 's' :: 't' :: 'r' ::
        'i' :: 'n' :: 'g' :: ' ' :: '[' :: (Nat.toDigits 10 s.byteSize ++ ' ' :: 'x' :: ' ' ::
          'i' :: '8' :: ']' :: ' ' :: ((quoted s.value).toList ++ '\n' :: rest))) := by
    simp [StrConst.listing]
  simp only [htext, List.cons.injEq, true_and] at h
  obtain ⟨rfl, hsize⟩ := legible_digits trivial trivial (by simp [inWord]) (by simp [inWord]) h
  simp only [List.cons.injEq, true_and] at hsize
  obtain ⟨-, hvalue⟩ := legible_digits trivial trivial (by simp [inWord]) (by simp [inWord]) hsize
  simp only [List.cons.injEq, true_and] at hvalue
  obtain ⟨rfl, hafter⟩ := legible_quoted trivial trivial trivial trivial hvalue
  exact ⟨rfl, (List.cons.inj hafter).2⟩

theorem sectionOf_cons (line : StyledText) (lines : List StyledText) :
    sectionOf (line :: lines) = .plain "\n" :: (line :: lines).flatten := rfl

/-- The section of the strings is told from the declarations behind it. -/
theorem legible_strings : Legible Anything (fun rest => ∃ more, rest = '\n' :: 'd' :: more)
    fun strings : List StrConst => letters (sectionOf (strings.map StrConst.listing)) := by
  have hrow : Legible (fun strings : List StrConst => ∀ s ∈ strings, Anything s) LineEnds
      (List.flatMap fun s : StrConst => letters s.listing) :=
    legible_string.flatMap (fun _ => trivial) (fun _ _ => trivial)
      fun rest _ => by simp [LineEnds, StrConst.listing]
  have hsection (s : StrConst) (strings : List StrConst) :
      letters (sectionOf ((s :: strings).map StrConst.listing)) =
        '\n' :: (s :: strings).flatMap fun s => letters s.listing := by
    rw [List.map_cons, sectionOf_cons, ← List.map_cons, letters_plain, letters_flatten,
      List.flatMap_map]
    rfl
  intro strings strings' rest rest' _ _ hrest hrest' h
  obtain ⟨more, rfl⟩ := hrest
  obtain ⟨more', rfl⟩ := hrest'
  cases strings with
  | nil =>
    cases strings' with
    | nil => exact ⟨rfl, h⟩
    | cons s strings' =>
      simp only [hsection] at h
      simp [sectionOf, StrConst.listing] at h
  | cons s strings =>
    cases strings' with
    | nil =>
      simp only [hsection] at h
      simp [sectionOf, StrConst.listing] at h
    | cons s' strings' =>
      simp only [hsection, List.cons_append, List.cons.injEq, true_and] at h
      exact hrow (fun _ _ => trivial) (fun _ _ => trivial) (lineEnds_newline _)
        (lineEnds_newline _) h

/-! ## Modules -/

/-- A module with the variables and functions that the standard options ask for. -/
structure Module.Plain (m : Module) (body : Body) : Prop where
  name : m.name = Options.standard.moduleName
  globals : m.globals = standardGlobals
  functions : m.functions.values =
    [.declared printSignature, ⟨⟨Options.standard.entry, [], .i32, false⟩, some body⟩]
  blocks : ∀ b ∈ body.laidOut, b.Plain

/-- What every such module is listed with before its strings. -/
def heading : StyledText :=
  [commentSpan ("module " ++ Options.standard.moduleName), .plain "\n"] ++
    sectionOf (standardGlobals.values.map GlobalVar.listing)

/-- What it is listed with between its strings and its blocks. -/
def divider : StyledText :=
  .plain "\n" :: ((Func.declared printSignature).declaration ++
    [.plain "\n", .styled .keyword "function", .plain " "] ++
      (Signature.listing ⟨Options.standard.entry, [], .i32, false⟩ ++ [.plain " \x7b\n"]))

theorem Module.Plain.listing_eq {m : Module} {body : Body} (h : m.Plain body) :
    m.listing .standard = heading ++ (sectionOf (m.strings.map StrConst.listing) ++
      (divider ++ (blocksListing .standard m body.laidOut ++ [.plain "\x7d\n"]))) := by
  have hdeclared : m.declared = [.declared printSignature] := by
    rw [Module.declared, h.functions]
    rfl
  have hdefined : m.defined = [⟨⟨Options.standard.entry, [], .i32, false⟩, some body⟩] := by
    rw [Module.defined, h.functions]
    rfl
  rw [Module.listing, hdeclared, hdefined, h.name, h.globals]
  simp [heading, divider, Func.listing, Func.laidOut, sectionOf_cons]

/-- Only the names of the variables matter for how blocks are listed. -/
theorem blocksListing_congr {m m' : Module} (h : m.globals = m'.globals) (style : ListingStyle) :
    blocksListing style m = blocksListing style m' := by
  have hoperand : Operand.listing m = Operand.listing m' := by
    funext v
    cases v <;> simp [Operand.listing, Module.global?, h]
  have hentry : phiEntry m = phiEntry m' := by
    funext entry
    rw [phiEntry, phiEntry, hoperand]
  have hinstr (i : Instr) : i.listing style m = i.listing style m' := by
    cases i <;> simp [Instr.listing, Operand.listings, hoperand, hentry]
  have hterminator (t : Terminator) : t.listing m = t.listing m' := by
    rcases t with _ | _ | (_ | _) | _ <;> simp [Terminator.listing, hoperand]
  have hblock (b : Block) : b.listing style m = b.listing style m' := by
    simp [Block.listing, hinstr, hterminator]
  funext blocks
  induction blocks with
  | nil => rfl
  | cons b blocks ih =>
    cases blocks with
    | nil => exact hblock b
    | cons b' blocks =>
      show b.listing style m ++ .plain "\n" :: blocksListing style m (b' :: blocks) =
        b.listing style m' ++ .plain "\n" :: blocksListing style m' (b' :: blocks)
      rw [hblock, ih]

/-- **Listings that are the same show the same strings and the same blocks.** -/
theorem Module.Plain.laidOut_of_render {m m' : Module} {body body' : Body} (h : m.Plain body)
    (h' : m'.Plain body') (htext : m.render .standard = m'.render .standard) :
    m.strings = m'.strings ∧ body.laidOut = body'.laidOut := by
  have hletters : letters (m.listing .standard) = letters (m'.listing .standard) := by
    rw [← toList_render, ← toList_render]
    exact congrArg String.toList htext
  simp only [h.listing_eq, h'.listing_eq, letters_append, List.append_cancel_left_eq] at hletters
  have hdivider (rest : List Char) : ∃ more, letters divider ++ rest = '\n' :: 'd' :: more := by
    simp [divider, Func.declaration]
  obtain ⟨hstrings, hmore⟩ := legible_strings trivial trivial (hdivider _) (hdivider _) hletters
  refine ⟨hstrings, ?_⟩
  rw [List.append_cancel_left_eq, blocksListing_congr (h'.globals.trans h.globals.symm)] at hmore
  exact (legible_blocks h.globals h.blocks h'.blocks (by simp) (by simp) hmore).1

end SexprSsa
