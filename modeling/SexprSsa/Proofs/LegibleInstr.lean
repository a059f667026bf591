/-
SexprSsa.Proofs.LegibleInstr — an instruction is told from its line.

Operands are words, and so are types and mnemonics; the sign in front of a
number says what is numbered. Of the names that operands show, those of
variables and functions, there is one each (`Operand.Plain`). The name of a slot
is the user's and stands in a comment up to the end of the line, so it must not
contain one (`Instr.Plain`).

Main statement: `legible_instr`.
-/
import SexprSsa.Compile.Options
import SexprSsa.Ir.Listing
import SexprSsa.Proofs.Legible

namespace SexprSsa

/-! ## Characters of a styled text -/

/-- The characters of a text without colours. -/
def letters (text : StyledText) : List Char := text.flatMap fun span => (span.render false).toList

@[simp] theorem letters_nil : letters [] = [] := rfl

@[simp] theorem letters_plain (s : String) (rest : StyledText) :
    letters (.plain s :: rest) = s.toList ++ letters rest := by
  simp [letters, Span.render]

@[simp] theorem letters_styled (style : Style) (s : String) (rest : StyledText) :
    letters (.styled style s :: rest) = s.toList ++ letters rest := by
  simp [letters, Span.render]

@[simp] theorem letters_append (text more : StyledText) :
    letters (text ++ more) = letters text ++ letters more := by
  simp [letters]

theorem letters_flatMap {α : Type} (l : List α) (f : α → StyledText) :
    letters (l.flatMap f) = l.flatMap fun a => letters (f a) := by
  simp [letters, List.flatMap_assoc]

theorem letters_flatten (texts : List StyledText) :
    letters texts.flatten = texts.flatMap letters := by
  rw [← letters_flatMap, List.flatMap_id']

theorem toList_render_spans (colors : Bool) (text : StyledText) :
    (text.render colors).toList = text.flatMap fun span => (span.render colors).toList := by
  unfold StyledText.render
  induction text with
  | nil => rfl
  | cons span text ih => rw [List.map_cons, String.join_cons, String.toList_append, ih]; rfl

theorem toList_render (text : StyledText) : (text.render false).toList = letters text :=
  toList_render_spans false text

theorem letters_commaSeparated (texts : List StyledText) :
    letters (.commaSeparated texts) = [',', ' '].intercalate (texts.map letters) := by
  induction texts with
  | nil => rfl
  | cons text texts ih =>
    cases texts with
    | nil => simp [StyledText.commaSeparated]
    | cons more texts =>
      rw [List.map_cons] at ih
      rw [List.map_cons, List.map_cons, List.intercalate_cons_cons, ← ih]
      simp [StyledText.commaSeparated]

/-! ## Numbered things -/

@[simp] theorem toString_text (s : String) : toString s = s := rfl

@[simp] theorem Ty.toString_eq (ty : Ty) : toString ty = ty.render := rfl

@[simp] theorem ValueId.toList_toString (v : ValueId) :
    (toString v).toList = 'v' :: Nat.toDigits 10 v.index := by
  simp [toString]

@[simp] theorem SlotId.toList_toString (s : SlotId) :
    (toString s).toList = 's' :: 's' :: Nat.toDigits 10 s.index := by
  simp [toString]

@[simp] theorem GlobalId.toList_toString (g : GlobalId) :
    (toString g).toList = 'g' :: 'v' :: Nat.toDigits 10 g.index := by
  simp [toString]

@[simp] theorem StrId.toList_toString (s : StrId) :
    (toString s).toList = 's' :: 't' :: 'r' :: Nat.toDigits 10 s.index := by
  simp [toString]

@[simp] theorem BlockId.toList_toString (b : BlockId) :
    (toString b).toList = 'b' :: 'l' :: 'o' :: 'c' :: 'k' :: Nat.toDigits 10 b.index := by
  simp [toString]

/-! ## Operands -/

/-- The only variable of a module that is compiled with the standard options. -/
def version : GlobalVar := ⟨⟨0⟩, "VERSION", .i32, .int 42, false, 4⟩

/-- The variables of a module that is compiled with the standard options. -/
def standardGlobals : Table String GlobalVar := (∅ : Table String GlobalVar).insert "VERSION" version

/-- Variables and functions that an operand names are the standard ones. -/
def Operand.Plain : Operand → Prop
  | .global id => id = version.id
  | .func name => name = Options.standard.entry
  | _ => True

section
variable {m : Module}

@[simp] theorem Operand.letters_const (c : Constant) :
    letters ((Operand.const c).listing m) = c.render.toList := by
  simp [Operand.listing, Operand.render]

@[simp] theorem Operand.letters_temp (v : ValueId) :
    letters ((Operand.temp v).listing m) = 'v' :: Nat.toDigits 10 v.index := by
  simp [Operand.listing, Operand.render]

@[simp] theorem Operand.letters_slot (s : SlotId) :
    letters ((Operand.slot s).listing m) = 's' :: 's' :: Nat.toDigits 10 s.index := by
  simp [Operand.listing, Operand.render]

@[simp] theorem Operand.letters_str (s : StrId) :
    letters ((Operand.str s).listing m) = 's' :: 't' :: 'r' :: Nat.toDigits 10 s.index := by
  simp [Operand.listing, Operand.render]

@[simp] theorem Operand.letters_func (name : String) :
    letters ((Operand.func name).listing m) = '%' :: name.toList := by
  simp [Operand.listing, symbolSpan]

@[simp] theorem Operand.letters_global {id : GlobalId} (hm : m.globals = standardGlobals)
    (hid : (Operand.global id).Plain) :
    letters ((Operand.global id).listing m) = '@' :: version.name.toList := by
  obtain rfl : id = version.id := hid
  have hvar : m.global? version.id = some version := by
    unfold Module.global?
    rw [hm]
    rfl
  simp [Operand.listing, hvar, symbolSpan]

theorem inWord_operand (hm : m.globals = standardGlobals) {v : Operand} (hv : v.Plain) :
    (letters (v.listing m)).all inWord = true := by
  have hword (text : List Char) {n : Nat} (htext : text.all inWord = true) :
      (text ++ Nat.toDigits 10 n).all inWord = true := by
    rw [List.all_append, htext, inWord_toDigits]
    rfl
  cases v with
  | const c =>
    rw [Operand.letters_const]
    exact inWord_constant c
  | temp v =>
    rw [Operand.letters_temp]
    exact hword ['v'] (by decide)
  | slot s =>
    rw [Operand.letters_slot]
    exact hword ['s', 's'] (by decide)
  | global id =>
    rw [Operand.letters_global hm hv]
    decide
  | str s =>
    rw [Operand.letters_str]
    exact hword ['s', 't', 'r'] (by decide)
  | func name =>
    obtain rfl : name = Options.standard.entry := hv
    rw [Operand.letters_func]
    decide

theorem letters_const_ne (hm : m.globals = standardGlobals) (c : Constant) {v : Operand}
    (hv : v.Plain) (hconst : v.constant? = none) :
    letters ((Operand.const c).listing m) ≠ letters (v.listing m) := by
  -- Constants start with a digit, a minus sign or the first letter of a truth value.
  have hhead : ∀ d ∈ c.render.toList.head?, d ∉ ['v', 's', '@', '%'] := by
    intro d hd
    cases c with
    | int value =>
      rcases mem_toString_int (List.mem_of_mem_head? hd) with rfl | hdigit
      · decide
      · exact not_mem_of_isDigit (by decide) hdigit
    | bool value =>
      cases value with
      | false =>
        obtain rfl : 'f' = d := Option.some.inj hd
        decide
      | true =>
        obtain rfl : 't' = d := Option.some.inj hd
        decide
  intro he
  rw [Operand.letters_const] at he
  rw [he] at hhead
  cases v with
  | const c' => cases hconst
  | _ => simp [hm, hv] at hhead

theorem Operand.injective (hm : m.globals = standardGlobals) {v w : Operand} (hv : v.Plain)
    (hw : w.Plain) (h : letters (v.listing m) = letters (w.listing m)) : v = w := by
  have hdigits {n k : Nat} (h : Nat.toDigits 10 n = Nat.toDigits 10 k) : n = k :=
    toDigits_injective (by decide) (by decide) h
  cases v with
  | const c =>
    cases w with
    | const c' =>
      have htext : c.render = c'.render := String.toList_injective (by simpa using h)
      rw [Constant.render_injective htext]
    | _ => exact absurd h (letters_const_ne hm c hw rfl)
  | temp v =>
    cases w with
    | const c => exact absurd h.symm (letters_const_ne hm c hv rfl)
    | temp w =>
      have hindex : v.index = w.index := hdigits (by simpa using h)
      exact congrArg (fun index => Operand.temp ⟨index⟩) hindex
    | _ => simp [hm, hw] at h
  | slot s =>
    cases w with
    | const c => exact absurd h.symm (letters_const_ne hm c hv rfl)
    | slot t =>
      have hindex : s.index = t.index := hdigits (by simpa using h)
      exact congrArg (fun index => Operand.slot ⟨index⟩) hindex
    | _ => simp [hm, hw] at h
  | global id =>
    cases w with
    | const c => exact absurd h.symm (letters_const_ne hm c hv rfl)
    | global id' => exact congrArg Operand.global (Eq.trans hv (Eq.symm hw))
    | _ => simp [hm, hv] at h
  | str s =>
    cases w with
    | const c => exact absurd h.symm (letters_const_ne hm c hv rfl)
    | str t =>
      have hindex : s.index = t.index := hdigits (by simpa using h)
      exact congrArg (fun index => Operand.str ⟨index⟩) hindex
    | _ => simp [hm, hw] at h
  | func name =>
    cases w with
    | const c => exact absurd h.symm (letters_const_ne hm c hv rfl)
    | func name' => exact congrArg Operand.func (Eq.trans hv (Eq.symm hw))
    | _ => simp [hm, hw] at h

theorem legible_operand (hm : m.globals = standardGlobals) :
    Legible Operand.Plain (Stops inWord) fun v => letters (v.listing m) :=
  legible_run (fun _ hv => inWord_operand hm hv) fun _ _ hv hw h => Operand.injective hm hv hw h

/-! ## Instructions -/

/-- What follows closes a row of operands: the line or the parenthesis ends. -/
def Closes (rest : List Char) : Prop := ∃ c ∈ rest.head?, c = '\n' ∨ c = ')'

theorem Closes.stops {rest : List Char} (h : Closes rest) : Stops inWord rest := by
  obtain ⟨c, hc, rfl | rfl⟩ := h <;> rw [Stops, Option.mem_def.1 hc] <;> simp [inWord]

theorem letters_operand_ne_nil (hm : m.globals = standardGlobals) {v : Operand} (hv : v.Plain) :
    letters (v.listing m) ≠ [] := by
  cases v with
  | const c =>
    rw [Operand.letters_const]
    cases c with
    | int value =>
      change (toString value.toInt).toList ≠ []
      rw [toList_toString_int]
      split <;> simp
    | bool value => cases value <;> decide
  | _ => simp [hm, hv]

theorem not_closes_operand (hm : m.globals = standardGlobals) {v : Operand} (hv : v.Plain)
    (rest : List Char) : ¬ Closes (letters (v.listing m) ++ rest) := by
  have hword := inWord_operand hm hv
  rintro ⟨c, hc, hclose⟩
  cases htext : letters (v.listing m) with
  | nil => exact letters_operand_ne_nil hm hv htext
  | cons d text =>
    obtain rfl : d = c := by simpa [htext] using hc
    have hd := List.all_eq_true.1 hword d (by simp [htext])
    rcases hclose with rfl | rfl <;> exact absurd hd (by decide)

/-- Operands are told from their row. -/
theorem legible_operands (hm : m.globals = standardGlobals) :
    Legible (fun vs => ∀ v ∈ vs, Operand.Plain v) Closes fun vs =>
      letters (Operand.listings m vs) := by
  have hrow : Legible (fun vs => ∀ v ∈ vs, Operand.Plain v) Closes fun vs : List Operand =>
      [',', ' '].intercalate (vs.map fun v => letters (v.listing m)) :=
    (legible_operand hm).intercalate Closes.stops (by simp [inWord]) (by simp [Closes])
      fun rest hv => not_closes_operand hm hv rest
  simpa [Operand.listings, letters_commaSeparated, Function.comp_def] using hrow

/-- The line is over. -/
def LineEnds (rest : List Char) : Prop := rest.head? = some '\n'

theorem lineEnds_newline (rest : List Char) : LineEnds ('\n' :: rest) := rfl

theorem LineEnds.closes {rest : List Char} (h : LineEnds rest) : Closes rest := ⟨'\n', h, .inl rfl⟩

theorem LineEnds.stops {rest : List Char} (h : LineEnds rest) : Stops inWord rest :=
  h.closes.stops

/-- An entry of a phi ends with its bracket. -/
theorem legible_phiEntry (hm : m.globals = standardGlobals) :
    Legible (fun entry : Operand × BlockId => entry.1.Plain) Anything fun entry =>
      letters (phiEntry m entry) := by
  rintro ⟨v, b⟩ ⟨w, c⟩ rest rest' hv hw - - h
  have hentry : letters (v.listing m) ++ ',' :: ' ' :: 'b' :: 'l' :: 'o' :: 'c' :: 'k' ::
        (Nat.toDigits 10 b.index ++ ']' :: rest) =
      letters (w.listing m) ++ ',' :: ' ' :: 'b' :: 'l' :: 'o' :: 'c' :: 'k' ::
        (Nat.toDigits 10 c.index ++ ']' :: rest') := by
    simpa [phiEntry] using h
  obtain ⟨rfl, hblock⟩ := legible_operand hm hv hw (by simp [inWord]) (by simp [inWord]) hentry
  simp only [List.cons.injEq, true_and] at hblock
  obtain ⟨hindex, hrest⟩ := legible_digits trivial trivial (by simp [inWord]) (by simp [inWord])
    hblock
  exact ⟨congrArg (fun index => (v, BlockId.mk index)) hindex, (List.cons.inj hrest).2⟩

/-- The entries of a phi are told from their row. -/
theorem legible_phiEntries (hm : m.globals = standardGlobals) :
    Legible (fun entries => ∀ entry ∈ entries, entry.1.Plain) LineEnds
      fun entries : List (Operand × BlockId) =>
        letters (.commaSeparated (entries.map (phiEntry m))) := by
  have hrow : Legible (fun entries => ∀ entry ∈ entries, entry.1.Plain) LineEnds
      fun entries : List (Operand × BlockId) =>
        [',', ' '].intercalate (entries.map fun entry => letters (phiEntry m entry)) :=
    (legible_phiEntry hm).intercalate (fun _ => trivial) (fun _ => trivial) (by simp [LineEnds])
      fun rest _ => by simp [LineEnds, phiEntry]
  simpa [letters_commaSeparated, Function.comp_def] using hrow

theorem legible_mnemonic : Legible Anything (Stops inWord) fun op : ArithOp => op.mnemonic.toList :=
  legible_run (fun op _ => by cases op <;> decide) fun op op' _ _ h => by
    revert h
    cases op <;> cases op' <;> decide

theorem legible_cond : Legible Anything (Stops inWord) fun cond : Cond => cond.mnemonic.toList :=
  legible_run (fun cond _ => by cases cond <;> decide) fun cond cond' _ _ h => by
    revert h
    cases cond <;> cases cond' <;> decide

/-- The operands are plain, the name of a slot stays on its line, and only the print function is
called. -/
structure Instr.Plain (i : Instr) : Prop where
  operands : ∀ v ∈ i.operands, v.Plain
  name : ∀ slot ty name, i = .alloca slot ty name → '\n' ∉ name.toList
  callee : ∀ r callee args, i = .call r callee args → callee = printName

/-- How the listing of an instruction goes on after its result. -/
def Instr.action (m : Module) : Instr → StyledText
  | .load _ ty address => .plain s!"load.{ty} " :: address.listing m
  | .arith _ op left right => .plain s!"{op.mnemonic} " :: Operand.listings m [left, right]
  | .compare _ cond left right =>
      .plain s!"icmp {cond.mnemonic} " :: Operand.listings m [left, right]
  | .call _ callee args =>
      .plain "call " :: symbolSpan "%" callee :: .plain "(" ::
        (Operand.listings m args ++ [.plain ")"])
  | .phi _ ty incoming =>
      .plain s!"phi.{ty} " :: StyledText.commaSeparated (incoming.map (phiEntry m))
  | .alloca .. | .store .. => []

/-- An instruction is listed as its result and what computes it. -/
theorem Instr.letters_of_result {i : Instr} {r : ValueId} (h : i.result? = some r) :
    letters (i.listing .standard m) =
      'v' :: (Nat.toDigits 10 r.index ++ ' ' :: '=' :: ' ' :: letters (i.action m)) := by
  cases i with
  | alloca | store => cases h
  | _ =>
    obtain rfl := Option.some.inj h
    simp [Instr.listing, Instr.action]

/-- A word, a blank and something legible are told apart. -/
theorem word_then {α β : Type} {word : α → List Char} {Ok : β → Prop} {Ends : List Char → Prop}
    {write : β → List Char} (hword : Legible Anything (Stops inWord) word)
    (hwrite : Legible Ok Ends write) {a a' : α} {b b' : β} {rest rest' : List Char} (hb : Ok b)
    (hb' : Ok b') (hrest : Ends rest) (hrest' : Ends rest')
    (h : word a ++ ' ' :: (write b ++ rest) = word a' ++ ' ' :: (write b' ++ rest')) :
    a = a' ∧ b = b' ∧ rest = rest' := by
  have hblank (more : List Char) : Stops inWord (' ' :: more) := stops_cons.2 (by decide)
  obtain ⟨ha, hmore⟩ := hword trivial trivial (hblank _) (hblank _) h
  exact ⟨ha, hwrite hb hb' hrest hrest' (List.cons.inj hmore).2⟩

/-- What computes a value is told from the rest of the line. -/
theorem legible_action (hm : m.globals = standardGlobals) (r : ValueId) :
    Legible (fun i : Instr => i.Plain ∧ i.result? = some r) LineEnds
      fun i => letters (i.action m) := by
  intro i i' rest rest' ⟨hi, hr⟩ ⟨hi', hr'⟩ hrest hrest' h
  have hops := hi.operands
  have hops' := hi'.operands
  cases i with
  | alloca | store => cases hr
  | load r₁ ty address =>
    cases i' with
    | alloca | store => cases hr'
    | load r₂ ty' address' =>
      obtain rfl : r₁ = r := Option.some.inj hr
      obtain rfl : r₂ = r₁ := Option.some.inj hr'
      obtain ⟨rfl, rfl, hafter⟩ := word_then legible_ty (legible_operand hm)
        (hops address (by simp [Instr.operands])) (hops' address' (by simp [Instr.operands]))
        hrest.stops hrest'.stops (by simpa [Instr.action] using h)
      exact ⟨rfl, hafter⟩
    | arith r₂ op left right => cases op <;> simp [Instr.action, ArithOp.mnemonic] at h
    | _ => simp [Instr.action] at h
  | arith r₁ op left right =>
    cases i' with
    | alloca | store => cases hr'
    | arith r₂ op' left' right' =>
      obtain rfl : r₁ = r := Option.some.inj hr
      obtain rfl : r₂ = r₁ := Option.some.inj hr'
      obtain ⟨rfl, hboth, hafter⟩ := word_then legible_mnemonic (legible_operands hm) hops hops'
        hrest.closes hrest'.closes (by simpa [Instr.action, Instr.operands] using h)
      cases hboth
      exact ⟨rfl, hafter⟩
    | _ => cases op <;> simp [Instr.action, ArithOp.mnemonic] at h
  | compare r₁ cond left right =>
    cases i' with
    | alloca | store => cases hr'
    | compare r₂ cond' left' right' =>
      obtain rfl : r₁ = r := Option.some.inj hr
      obtain rfl : r₂ = r₁ := Option.some.inj hr'
      obtain ⟨rfl, hboth, hafter⟩ := word_then legible_cond (legible_operands hm) hops hops'
        hrest.closes hrest'.closes (by simpa [Instr.action, Instr.operands] using h)
      cases hboth
      exact ⟨rfl, hafter⟩
    | arith r₂ op left' right' => cases op <;> simp [Instr.action, ArithOp.mnemonic] at h
    | _ => simp [Instr.action] at h
  | call r₁ callee args =>
    cases i' with
    | alloca | store => cases hr'
    | call r₂ callee' args' =>
      obtain rfl : r₁ = r := Option.some.inj hr
      obtain rfl : r₂ = r₁ := Option.some.inj hr'
      obtain rfl : callee = printName := hi.callee _ _ _ rfl
      obtain rfl : callee' = printName := hi'.callee _ _ _ rfl
      have htext : letters (Operand.listings m args) ++ ')' :: rest =
          letters (Operand.listings m args') ++ ')' :: rest' := by
        simpa [Instr.action, symbolSpan] using h
      obtain ⟨rfl, hmore⟩ := legible_operands hm hops hops' (by simp [Closes]) (by simp [Closes])
        htext
      exact ⟨rfl, (List.cons.inj hmore).2⟩
    | arith r₂ op left' right' => cases op <;> simp [Instr.action, ArithOp.mnemonic] at h
    | _ => simp [Instr.action] at h
  | phi r₁ ty incoming =>
    cases i' with
    | alloca | store => cases hr'
    | phi r₂ ty' incoming' =>
      obtain rfl : r₁ = r := Option.some.inj hr
      obtain rfl : r₂ = r₁ := Option.some.inj hr'
      obtain ⟨rfl, rfl, hafter⟩ := word_then legible_ty (legible_phiEntries hm)
        (fun entry he => hops _ (List.mem_map_of_mem he))
        (fun entry he => hops' _ (List.mem_map_of_mem he)) hrest hrest'
        (by simpa [Instr.action] using h)
      exact ⟨rfl, hafter⟩
    | arith r₂ op left' right' => cases op <;> simp [Instr.action, ArithOp.mnemonic] at h
    | _ => simp [Instr.action] at h

/-- A name that stays on its line is told from the rest of the text. -/
theorem legible_name : Legible (fun name : String => '\n' ∉ name.toList) (Stops (· != '\n'))
    fun name => name.toList :=
  legible_run
    (fun name hname => List.all_eq_true.2 fun c hc => by
      simpa using fun he : c = '\n' => hname (he ▸ hc))
    fun _ _ _ _ h => String.toList_injective h

theorem LineEnds.stops_name {rest : List Char} (h : LineEnds rest) : Stops (· != '\n') rest := by
  rw [Stops, show rest.head? = _ from h]
  simp

/-- An instruction that computes nothing is an allocation or a store. -/
theorem head?_of_no_result {i : Instr} (h : i.result? = none) :
    (letters (i.listing .standard m)).head? = some 's' := by
  cases i with
  | alloca slot ty name => simp [Instr.listing]
  | store address value => simp [Instr.listing]
  | _ => cases h

/-- An allocation is told from the rest of its line, and so is a store. -/
theorem legible_effect (hm : m.globals = standardGlobals) :
    Legible (fun i : Instr => i.Plain ∧ i.result? = none) LineEnds
      fun i => letters (i.listing .standard m) := by
  intro i i' rest rest' ⟨hi, hr⟩ ⟨hi', hr'⟩ hrest hrest' h
  have hops := hi.operands
  have hops' := hi'.operands
  cases i with
  | alloca slot ty name =>
    cases i' with
    | alloca slot' ty' name' =>
      have htext : Nat.toDigits 10 slot.index ++ ' ' :: '=' :: ' ' :: 'a' :: 'l' :: 'l' :: 'o' ::
            'c' :: 'a' :: '.' :: (ty.render.toList ++ ' ' :: ' ' :: ';' :: ' ' ::
              (name.toList ++ rest)) =
          Nat.toDigits 10 slot'.index ++ ' ' :: '=' :: ' ' :: 'a' :: 'l' :: 'l' :: 'o' ::
            'c' :: 'a' :: '.' :: (ty'.render.toList ++ ' ' :: ' ' :: ';' :: ' ' ::
              (name'.toList ++ rest')) := by
        simpa [Instr.listing, ListingStyle.standard, commentSpan] using h
      obtain ⟨hindex, hty⟩ := legible_digits trivial trivial (by simp [inWord]) (by simp [inWord])
        htext
      simp only [List.cons.injEq, true_and] at hty
      obtain ⟨rfl, hname⟩ := legible_ty trivial trivial (by simp [inWord]) (by simp [inWord]) hty
      simp only [List.cons.injEq, true_and] at hname
      obtain ⟨rfl, hafter⟩ := legible_name (hi.name _ _ _ rfl) (hi'.name _ _ _ rfl)
        hrest.stops_name hrest'.stops_name hname
      exact ⟨congrArg (fun index => Instr.alloca ⟨index⟩ ty name) hindex, hafter⟩
    | store address value => simp [Instr.listing] at h
    | _ => cases hr'
  | store address value =>
    cases i' with
    | alloca slot ty name => simp [Instr.listing] at h
    | store address' value' =>
      have hplain : ∀ v ∈ [value, address], v.Plain := by
        simpa [Instr.operands, and_comm] using hops
      have hplain' : ∀ v ∈ [value', address'], v.Plain := by
        simpa [Instr.operands, and_comm] using hops'
      obtain ⟨hboth, hafter⟩ := legible_operands hm hplain hplain' hrest.closes hrest'.closes
        (by simpa [Instr.listing] using h)
      cases hboth
      exact ⟨rfl, hafter⟩
    | _ => cases hr'
  | _ => cases hr

/-- An instruction is told from the rest of its line. -/
theorem legible_instr (hm : m.globals = standardGlobals) :
    Legible Instr.Plain LineEnds fun i => letters (i.listing .standard m) := by
  have hsign {i i' : Instr} {r : ValueId} {rest rest' : List Char} (hr : i.result? = some r)
      (hr' : i'.result? = none) :
      letters (i.listing .standard m) ++ rest ≠ letters (i'.listing .standard m) ++ rest' := by
    intro h
    have hhead := congrArg List.head? h
    simp [Instr.letters_of_result hr, head?_of_no_result hr'] at hhead
  intro i i' rest rest' hi hi' hrest hrest' h
  cases hr : i.result? with
  | none =>
    cases hr' : i'.result? with
    | none => exact legible_effect hm ⟨hi, hr⟩ ⟨hi', hr'⟩ hrest hrest' h
    | some r' => exact absurd h.symm (hsign hr' hr)
  | some r =>
    cases hr' : i'.result? with
    | none => exact absurd h (hsign hr hr')
    | some r' =>
      simp only [Instr.letters_of_result hr, Instr.letters_of_result hr'] at h
      have htext : Nat.toDigits 10 r.index ++ ' ' :: ('=' :: ' ' :: letters (i.action m) ++ rest) =
          Nat.toDigits 10 r'.index ++ ' ' :: ('=' :: ' ' :: letters (i'.action m) ++ rest') := by
        simpa using h
      obtain ⟨hindex, hmore⟩ := legible_digits trivial trivial (by simp [inWord]) (by simp [inWord])
        htext
      have hresult : r = r' := congrArg ValueId.mk hindex
      exact legible_action hm r ⟨hi, hr⟩ ⟨hi', hresult ▸ hr'⟩ hrest hrest' (by simpa using hmore)

end

end SexprSsa
