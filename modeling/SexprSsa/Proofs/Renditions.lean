/-
SexprSsa.Proofs.Renditions — coloured and plain listings.

A coloured listing differs from a plain one by the sequences that select
renditions. Deleting them is reading the text from left to right and skipping
every sequence that is complete (`withoutRenditions`). That gives the plain
listing back if what is listed has no escape sign of its own, since such a sign
might start a sequence, too. Strings are shown in quotes, and there an escape
sign is shown by its code; numbers, types and the words of a listing have none.
So it is only the names that matter.

Main statement: `withoutRenditions_render`.
-/
import SexprSsa.Proofs.LegibleListing

namespace SexprSsa

/-! ## Texts without escape signs -/

/-- The text has no escape sign. -/
def Unescaped (text : List Char) : Prop := escapeSign ∉ text

@[simp] theorem unescaped_nil : Unescaped [] := List.not_mem_nil

@[simp] theorem unescaped_cons {c : Char} {text : List Char} :
    Unescaped (c :: text) ↔ c ≠ '\x1b' ∧ Unescaped text := by
  rw [Unescaped, List.mem_cons, not_or]
  exact and_congr_left fun _ => ne_comm

@[simp] theorem unescaped_append {text more : List Char} :
    Unescaped (text ++ more) ↔ Unescaped text ∧ Unescaped more := by
  rw [Unescaped, List.mem_append, not_or]
  rfl

theorem unescaped_flatMap {α : Type} {l : List α} {write : α → List Char} :
    Unescaped (l.flatMap write) ↔ ∀ a ∈ l, Unescaped (write a) := by
  simp [Unescaped]

/-- A separator without escape signs adds none. -/
theorem unescaped_intercalate {separator : List Char} (h : Unescaped separator)
    {texts : List (List Char)} (htexts : ∀ text ∈ texts, Unescaped text) :
    Unescaped (separator.intercalate texts) := by
  cases texts with
  | nil => exact unescaped_nil
  | cons text texts =>
    obtain ⟨htext, hmore⟩ := List.forall_mem_cons.1 htexts
    rw [intercalate_cons_eq, unescaped_append, unescaped_flatMap]
    exact ⟨htext, fun more hmem => unescaped_append.2 ⟨h, hmore more hmem⟩⟩

@[simp] theorem unescaped_decimal (n : Nat) : Unescaped (Nat.toDigits 10 n) := fun hmem =>
  absurd (isDigit_of_mem_toDigits hmem) (by decide)

theorem unescaped_hexadecimal (n : Nat) : Unescaped (Nat.toDigits 16 n) := by
  have hdigit : ∀ k < 16, k.digitChar ≠ escapeSign := by decide
  intro hmem
  obtain ⟨k, hk, he⟩ := exists_digitChar (by decide) hmem
  exact hdigit k hk he

@[simp] theorem unescaped_ty (ty : Ty) : Unescaped ty.render.toList := by
  induction ty with
  | ptr pointee ih => simpa [Ty.render] using ih
  | _ => simp [Ty.render]

@[simp] theorem unescaped_constant (c : Constant) : Unescaped c.render.toList := by
  cases c with
  | int value =>
    intro hmem
    rcases mem_toString_int hmem with hminus | hdigit
    · exact absurd hminus (by decide)
    · exact absurd hdigit (by decide)
  | bool value => cases value <;> simp [Constant.render]

/-- An escape sign in quotes is shown by its code. -/
theorem unescaped_quotedChar (c : Char) : Unescaped (quotedChar c) := by
  unfold quotedChar
  split; · simp
  split; · simp
  split; · simp
  split; · simp
  split; · simp
  split; · simp
  split
  · simp [unescaped_hexadecimal]
  · next hprintable =>
    rw [unescaped_cons]
    refine ⟨?_, unescaped_nil⟩
    rintro rfl
    exact hprintable (by decide)

@[simp] theorem unescaped_quoted (s : String) : Unescaped (quoted s).toList := by
  simp [quoted, unescaped_flatMap, unescaped_quotedChar]

/-! ## Deleting renditions -/

/-- Whether a character can be part of the parameters of a rendition. -/
def isParameter (c : Char) : Bool := c.isDigit || c == ';'

/-- What follows the rest of a sequence that selects a rendition, after its escape sign. -/
def afterRendition? : List Char → Option (List Char)
  | '[' :: rest =>
      match rest.dropWhile isParameter with
      | 'm' :: rest => some rest
      | _ => none
  | _ => none

theorem length_afterRendition? {text rest : List Char} (h : afterRendition? text = some rest) :
    rest.length < text.length := by
  unfold afterRendition? at h
  split at h
  · next inner =>
    split at h
    · next more hmore =>
      cases h
      have hle := (List.dropWhile_sublist isParameter (l := inner)).length_le
      rw [hmore] at hle
      simp only [List.length_cons] at hle ⊢
      omega
    · cases h
  · cases h

/-- The text without the sequences that select renditions. -/
def withoutRenditions : List Char → List Char
  | [] => []
  | c :: text =>
      if c = escapeSign then
        match _h : afterRendition? text with
        | some rest => withoutRenditions rest
        | none => c :: withoutRenditions text
      else c :: withoutRenditions text
termination_by text => text.length
decreasing_by
  · have hshorter := length_afterRendition? _h
    exact hshorter.trans (Nat.lt_succ_self _)
  · exact Nat.lt_succ_self _
  · exact Nat.lt_succ_self _

theorem withoutRenditions_nil : withoutRenditions [] = [] := by
  rw [withoutRenditions]

/-- A text without escape signs stays, whatever follows it. -/
theorem withoutRenditions_append {text : List Char} (h : Unescaped text) (rest : List Char) :
    withoutRenditions (text ++ rest) = text ++ withoutRenditions rest := by
  induction text with
  | nil => rfl
  | cons c text ih =>
    obtain ⟨hc, htext⟩ := unescaped_cons.1 h
    rw [List.cons_append, withoutRenditions, if_neg (show ¬ c = escapeSign from hc), ih htext]
    rfl

/-- A sequence that selects a rendition is deleted, whatever follows it. -/
theorem withoutRenditions_rendition {parameters : List Char}
    (h : parameters.all isParameter = true) (rest : List Char) :
    withoutRenditions (rendition parameters ++ rest) = withoutRenditions rest := by
  have hafter : afterRendition? ('[' :: (parameters ++ ['m']) ++ rest) = some rest := by
    have hdrop : (parameters ++ 'm' :: rest).dropWhile isParameter = 'm' :: rest := by
      rw [List.dropWhile_append_of_pos (List.all_eq_true.1 h), List.dropWhile_cons_of_neg]
      decide
    simp [afterRendition?, hdrop]
  rw [rendition, List.cons_append, withoutRenditions, if_pos rfl]
  split
  · next hrest =>
    rw [hafter] at hrest
    cases hrest
    rfl
  · next hnone =>
    rw [hafter] at hnone
    cases hnone

/-! ## Styled texts -/

/-- Nothing is selected again in a text that resets nothing. -/
theorem reopen_eq {text : List Char} (h : Unescaped text) (opening : List Char) :
    reopen opening text = text := by
  induction text with
  | nil => rfl
  | cons c text ih =>
    obtain ⟨hc, htext⟩ := unescaped_cons.1 h
    rw [reopen, ih htext]
    rintro rest rfl
    exact absurd rfl hc

/-- A painted text is the text, after its sequences have been deleted. -/
theorem withoutRenditions_paint (style : Style) {text : List Char} (h : Unescaped text)
    (rest : List Char) :
    withoutRenditions (style.paint text ++ rest) = text ++ withoutRenditions rest := by
  have hopening : style.parameters.all isParameter = true := by cases style <;> decide
  rw [Style.paint, reopen_eq h, Style.opening, List.append_assoc, List.append_assoc,
    withoutRenditions_rendition hopening, withoutRenditions_append h, resetSequence,
    withoutRenditions_rendition (by decide)]

/-- A coloured text is the plain one, after its sequences have been deleted. -/
theorem withoutRenditions_spans {text : StyledText} (h : Unescaped (letters text)) :
    withoutRenditions (text.render true).toList = letters text := by
  rw [toList_render_spans]
  induction text with
  | nil => exact withoutRenditions_nil
  | cons span text ih =>
    rw [List.flatMap_cons]
    cases span with
    | plain s =>
      rw [letters_plain, unescaped_append] at h
      rw [letters_plain, ← ih h.2]
      exact withoutRenditions_append h.1 _
    | styled style s =>
      rw [letters_styled, unescaped_append] at h
      have hpaint : ((Span.styled style s).render true).toList = style.paint s.toList :=
        String.toList_ofList
      rw [letters_styled, hpaint, withoutRenditions_paint style h.1, ih h.2]

/-! ## Names -/

/-- The names in an operand: that of a function. -/
def Operand.names : Operand → List String
  | .func name => [name]
  | _ => []

/-- The names in an instruction: that of a slot that is allocated, and those of functions. -/
def Instr.names : Instr → List String
  | .alloca _ _ name => [name]
  | .call _ callee args => callee :: args.flatMap Operand.names
  | i => i.operands.flatMap Operand.names

/-- The name of a block and the names in it. -/
def Block.names (b : Block) : List String :=
  b.name :: (b.instrs.flatMap Instr.names ++ b.terminator.operands.flatMap Operand.names)

/-- The name of a function and the names in its blocks. -/
def Func.names (f : Func) : List String :=
  f.signature.name :: f.body.toList.flatMap fun body => body.blocks.values.flatMap Block.names

/-- The names in a module: its own, and those of its variables, functions, blocks and slots. -/
def Module.names (m : Module) : List String :=
  m.name :: (m.globals.values.map GlobalVar.name ++ m.functions.values.flatMap Func.names)

/-! ## Listings -/

theorem unescaped_signature {s : Signature} (hname : Unescaped s.name.toList) :
    Unescaped (letters s.listing) := by
  have hwords : ∀ word ∈ s.params.map Ty.render ++ (if s.variadic then ["..."] else []),
      Unescaped word.toList := by
    intro word hword
    rcases List.mem_append.1 hword with hty | hdots
    · obtain ⟨ty, -, rfl⟩ := List.mem_map.1 hty
      exact unescaped_ty ty
    · cases hvariadic : s.variadic with
      | false => simp [hvariadic] at hdots
      | true =>
        obtain rfl : word = "..." := by simpa [hvariadic] using hdots
        simp
  have hparams : Unescaped (", ".intercalate
      (s.params.map Ty.render ++ if s.variadic then ["..."] else [])).toList := by
    rw [String.toList_intercalate]
    exact unescaped_intercalate (by simp) (List.forall_mem_map.2 hwords)
  simp only [Signature.listing, symbolSpan, letters_styled, letters_plain, letters_nil,
    String.toList_append, unescaped_append]
  exact ⟨⟨by simp, hname⟩, by simp [-String.toList_intercalate, hparams]⟩

theorem mem_values_of_mem_laidOut {body : Body} {b : Block} (h : b ∈ body.laidOut) :
    b ∈ body.blocks.values := by
  obtain ⟨id, -, hb⟩ := List.mem_filterMap.1 h
  exact List.mem_map_of_mem ((Table.find?_eq_some_iff ..).1 hb)

section
variable {m : Module} (hm : ∀ var ∈ m.globals.values, Unescaped var.name.toList)
include hm

theorem unescaped_operand {v : Operand} (hv : ∀ name ∈ v.names, Unescaped name.toList) :
    Unescaped (letters (v.listing m)) := by
  cases v with
  | const c => simp
  | temp id => simp
  | slot id => simp
  | str id => simp
  | func name => simp [hv name (by simp [Operand.names])]
  | global id =>
    cases hvar : m.global? id with
    | none => simp [Operand.listing, hvar]
    | some var =>
      obtain ⟨entry, hentry, rfl⟩ := Option.map_eq_some_iff.1 hvar
      have hname := hm entry.2 (List.mem_map_of_mem (List.mem_of_getElem? hentry))
      simp [Operand.listing, hvar, symbolSpan, hname]

theorem unescaped_operands {vs : List Operand}
    (hvs : ∀ name ∈ vs.flatMap Operand.names, Unescaped name.toList) :
    Unescaped (letters (Operand.listings m vs)) := by
  rw [Operand.listings, letters_commaSeparated]
  refine unescaped_intercalate (by simp) fun text htext => ?_
  simp only [List.map_map, List.mem_map, Function.comp_apply] at htext
  obtain ⟨v, hv, rfl⟩ := htext
  exact unescaped_operand hm fun name hname => hvs name (List.mem_flatMap.2 ⟨v, hv, hname⟩)

theorem unescaped_phiEntries {incoming : List (Operand × BlockId)}
    (h : ∀ name ∈ (incoming.map Prod.fst).flatMap Operand.names, Unescaped name.toList) :
    Unescaped (letters (.commaSeparated (incoming.map (phiEntry m)))) := by
  rw [letters_commaSeparated]
  refine unescaped_intercalate (by simp) fun text htext => ?_
  simp only [List.map_map, List.mem_map, Function.comp_apply] at htext
  obtain ⟨entry, hentry, rfl⟩ := htext
  have hoperand : Unescaped (letters (entry.1.listing m)) :=
    unescaped_operand hm fun name hname =>
      h name (List.mem_flatMap.2 ⟨_, List.mem_map_of_mem hentry, hname⟩)
  simp [phiEntry, hoperand]

theorem unescaped_instr (style : ListingStyle) {i : Instr}
    (hi : ∀ name ∈ i.names, Unescaped name.toList) :
    Unescaped (letters (i.listing style m)) := by
  cases i with
  | alloca slot ty name =>
    have hname := hi name (by simp [Instr.names])
    cases hstyle : style.slotNames <;> simp [Instr.listing, hstyle, commentSpan, hname]
  | load result ty address =>
    have haddress : Unescaped (letters (address.listing m)) :=
      unescaped_operand hm fun name hname => hi name (by simpa [Instr.names, Instr.operands])
    simp [Instr.listing, haddress]
  | store address value =>
    have hoperands : Unescaped (letters (Operand.listings m [value, address])) :=
      unescaped_operands hm fun name hname => hi name (by
        simpa [Instr.names, Instr.operands, or_comm] using hname)
    simp [Instr.listing, hoperands]
  | arith result op left right =>
    have hoperands : Unescaped (letters (Operand.listings m [left, right])) :=
      unescaped_operands hm hi
    have hop : Unescaped op.mnemonic.toList := by cases op <;> simp [ArithOp.mnemonic]
    simp [Instr.listing, hop, hoperands]
  | compare result cond left right =>
    have hoperands : Unescaped (letters (Operand.listings m [left, right])) :=
      unescaped_operands hm hi
    have hcond : Unescaped cond.mnemonic.toList := by cases cond <;> simp [Cond.mnemonic]
    simp [Instr.listing, hcond, hoperands]
  | call result callee args =>
    obtain ⟨hcallee, hargs⟩ := List.forall_mem_cons.1 hi
    have hoperands : Unescaped (letters (Operand.listings m args)) := unescaped_operands hm hargs
    simp [Instr.listing, symbolSpan, hcallee, hoperands]
  | phi result ty incoming =>
    have hentries := unescaped_phiEntries hm hi
    simp [Instr.listing, hentries]

theorem unescaped_terminator {t : Terminator}
    (ht : ∀ name ∈ t.operands.flatMap Operand.names, Unescaped name.toList) :
    Unescaped (letters (t.listing m)) := by
  cases t with
  | jump target => simp [Terminator.listing]
  | branch condition yes no =>
    have hcondition : Unescaped (letters (condition.listing m)) :=
      unescaped_operand hm fun name hname => ht name (by simpa [Terminator.operands])
    simp [Terminator.listing, hcondition]
  | ret value =>
    cases value with
    | none => simp [Terminator.listing]
    | some v =>
      have hvalue : Unescaped (letters (v.listing m)) :=
        unescaped_operand hm fun name hname => ht name (by simpa [Terminator.operands])
      simp [Terminator.listing, hvalue]
  | missing => simp [Terminator.listing, commentSpan]

theorem unescaped_block (style : ListingStyle) {b : Block}
    (hb : ∀ name ∈ b.names, Unescaped name.toList) :
    Unescaped (letters (b.listing style m)) := by
  obtain ⟨hname, hinside⟩ := List.forall_mem_cons.1 hb
  rw [List.forall_mem_append] at hinside
  have hindent : Unescaped style.indent.render.toList := by
    cases style.indent with
    | spaces width => simp [Indent.render, Unescaped, escapeSign]
    | tab => simp [Indent.render]
  have hlabel : Unescaped (letters (b.label style)) := by
    cases hstyle : style.blockNames <;> simp [Block.label, hstyle, commentSpan, hname]
  have hinstrs : ∀ i ∈ b.instrs, Unescaped (letters (indented style (i.listing style m))) := by
    intro i hi
    have hline := unescaped_instr hm style fun name hname =>
      hinside.1 name (List.mem_flatMap.2 ⟨i, hi, hname⟩)
    simp [indented, hindent, hline]
  have hterminator := unescaped_terminator hm hinside.2
  simp only [Block.listing, letters_append, letters_flatMap, unescaped_append, unescaped_flatMap]
  exact ⟨⟨hlabel, hinstrs⟩, by simp [indented, hindent, hterminator]⟩

theorem unescaped_blocks (style : ListingStyle) {blocks : List Block}
    (hblocks : ∀ b ∈ blocks, ∀ name ∈ b.names, Unescaped name.toList) :
    Unescaped (letters (blocksListing style m blocks)) := by
  rw [letters_blocksListing]
  refine unescaped_intercalate (by simp) fun text htext => ?_
  obtain ⟨b, hb, rfl⟩ := List.mem_map.1 htext
  exact unescaped_block hm style (hblocks b hb)

theorem unescaped_func (style : ListingStyle) {f : Func}
    (hf : ∀ name ∈ f.names, Unescaped name.toList) :
    Unescaped (letters (f.listing style m)) := by
  obtain ⟨hname, hinside⟩ := List.forall_mem_cons.1 hf
  have hsignature := unescaped_signature hname
  have hblocks : Unescaped (letters (blocksListing style m f.laidOut)) := by
    refine unescaped_blocks hm style fun b hb name hmem => hinside name ?_
    unfold Func.laidOut at hb
    split at hb
    · next body hbody =>
      simp only [hbody, Option.toList_some, List.flatMap_cons, List.flatMap_nil, List.append_nil]
      exact List.mem_flatMap.2 ⟨b, mem_values_of_mem_laidOut hb, hmem⟩
    · exact absurd hb List.not_mem_nil
  simp [Func.listing, hsignature, hblocks]

end

theorem unescaped_section {lines : List StyledText} (h : ∀ line ∈ lines, Unescaped (letters line)) :
    Unescaped (letters (sectionOf lines)) := by
  cases lines with
  | nil => exact unescaped_nil
  | cons line lines =>
    rw [sectionOf_cons, letters_plain, letters_flatten, unescaped_append, unescaped_flatMap]
    exact ⟨by simp, h⟩

/-- A listing has no escape signs but those in the names. -/
theorem unescaped_listing {m : Module} (h : ∀ name ∈ m.names, Unescaped name.toList)
    (style : ListingStyle) : Unescaped (letters (m.listing style)) := by
  obtain ⟨hname, hinside⟩ := List.forall_mem_cons.1 h
  rw [List.forall_mem_append, List.forall_mem_map] at hinside
  obtain ⟨hglobals, hnames⟩ := hinside
  have hfuncs : ∀ f ∈ m.functions.values, ∀ name ∈ f.names, Unescaped name.toList :=
    fun f hf name hmem => hnames name (List.mem_flatMap.2 ⟨f, hf, hmem⟩)
  have hvars : Unescaped (letters (sectionOf (m.globals.values.map GlobalVar.listing))) := by
    refine unescaped_section fun line hline => ?_
    obtain ⟨var, hvar, rfl⟩ := List.mem_map.1 hline
    cases hconstant : var.isConstant <;>
      simp [GlobalVar.listing, symbolSpan, hconstant, hglobals var hvar]
  have hstrings : Unescaped (letters (sectionOf (m.strings.map StrConst.listing))) := by
    refine unescaped_section fun line hline => ?_
    obtain ⟨s, -, rfl⟩ := List.mem_map.1 hline
    simp [StrConst.listing]
  have hdeclared : Unescaped (letters (sectionOf (m.declared.map Func.declaration))) := by
    refine unescaped_section fun line hline => ?_
    obtain ⟨f, hf, rfl⟩ := List.mem_map.1 hline
    have hsignature := unescaped_signature (hfuncs f (List.mem_filter.1 hf).1 f.signature.name
      List.mem_cons_self)
    simp [Func.declaration, hsignature]
  have hdefined : Unescaped
      (letters (m.defined.flatMap fun f => .plain "\n" :: f.listing style m)) := by
    rw [letters_flatMap, unescaped_flatMap]
    intro f hf
    have hlisting := unescaped_func hglobals style (hfuncs f (List.mem_filter.1 hf).1)
    simp [hlisting]
  simp [Module.listing, commentSpan, hname, hvars, hstrings, hdeclared, hdefined]

/-! ## Colours -/

theorem blocksListing_colors (m : Module) (style : ListingStyle) (colors : Bool)
    (blocks : List Block) :
    blocksListing { style with colors } m blocks = blocksListing style m blocks := by
  induction blocks with
  | nil => rfl
  | cons b blocks ih =>
    cases blocks with
    | nil => rfl
    | cons b' blocks => exact congrArg (b.listing style m ++ .plain "\n" :: ·) ih

/-- What is listed does not depend on whether it is coloured. -/
theorem listing_colors (m : Module) (style : ListingStyle) (colors : Bool) :
    m.listing { style with colors } = m.listing style := by
  have hfunc (f : Func) : f.listing { style with colors } m = f.listing style m := by
    simp only [Func.listing, blocksListing_colors]
  simp only [Module.listing, hfunc]

/-- **A coloured listing is the plain one, after the sequences that select renditions have been
deleted**, if no name has an escape sign. The strings may have any. -/
theorem withoutRenditions_render {m : Module} (h : ∀ name ∈ m.names, escapeSign ∉ name.toList)
    (style : ListingStyle) :
    withoutRenditions (m.render { style with colors := true }).toList =
      (m.render { style with colors := false }).toList := by
  have htext : Unescaped (letters (m.listing { style with colors := true })) :=
    unescaped_listing h _
  rw [Module.render, withoutRenditions_spans htext, Module.render, toList_render,
    listing_colors m style true, listing_colors m style false]

/-- A module that prints a text with renditions of its own. -/
def noticeModule : Module where
  name := "demo"
  globals := ∅
  strings := [⟨⟨0⟩, "\x1b[31mstop\x1b[0m"⟩]
  functions := (Table.empty.insert printName (.declared printSignature)).insert "main"
    ⟨⟨"main", [], .i32, false⟩, some
      { entry := ⟨0⟩
        blocks := Table.empty.insert ⟨0⟩ ⟨⟨0⟩, "entry",
          [.alloca ⟨0⟩ .i32 "x", .call ⟨0⟩ printName [.str ⟨0⟩]], .ret (some (.const (.int 0)))⟩
        layout := [⟨0⟩]
        slots := [⟨⟨0⟩, "x", .i32⟩]
        nextBlock := 1
        nextValue := 1 }⟩

/-- The colours of its listing can be deleted although its string has escape signs. -/
theorem withoutRenditions_render_notice :
    (∃ s ∈ noticeModule.strings, escapeSign ∈ s.value.toList) ∧
    (∀ name ∈ noticeModule.names, escapeSign ∉ name.toList) ∧
    withoutRenditions (noticeModule.render .terminal).toList =
      (noticeModule.render .standard).toList := by
  have hnames : ∀ name ∈ noticeModule.names, escapeSign ∉ name.toList := by decide +kernel
  exact ⟨⟨_, List.mem_singleton_self _, by decide⟩, hnames,
    withoutRenditions_render hnames .standard⟩

end SexprSsa
