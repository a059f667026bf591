/-
SexprSsa.Proofs.Snapshot — a listing is a faithful snapshot.

The names of blocks and variables stand in the comments of a listing, each at
the end of its line. Those of blocks are the words that conditionals give; those
of variables are symbols of the program, and no symbol goes on over the end of
a line. So every listing of a compiled text can be read (`Module.Plain`), and
what it does not show can be told from what it shows.

Main statement: `compile_eq_of_render`. Compiled texts that are listed the same
are the same modules.
-/
import SexprSsa.Proofs.Assignment
import SexprSsa.Proofs.LegibleListing
import SexprSsa.Proofs.Printing
import SexprSsa.Proofs.Unlisted

namespace SexprSsa

/-! ## The names in a program -/

mutual

/-- A conditional gives its blocks these names, and nothing else names a block. -/
theorem Form.mem_blockNames {name : String} : (f : Form) → name ∈ f.blockNames →
    name ∈ ["then", "else", "ifend"]
  | .number _, h | .truth _, h | .text _, h | .reference _, h | .malformed _, h => by
    simp [Form.blockNames] at h
  | .arith _ left right, h | .compare _ left right, h => by
    rw [Form.blockNames, List.mem_append] at h
    rcases h with h | h
    · exact left.mem_blockNames h
    · exact right.mem_blockNames h
  | .declare _ _ init, h => init.mem_blockNames (by rwa [Form.blockNames] at h)
  | .assign _ value, h => value.mem_blockNames (by rwa [Form.blockNames] at h)
  | .block first rest, h => by
    rw [Form.blockNames, List.mem_append] at h
    rcases h with h | h
    · exact first.mem_blockNames h
    · exact Form.mem_blockNamesAll rest h
  | .print template args, h => by
    rw [Form.blockNames, List.mem_append] at h
    rcases h with h | h
    · exact template.mem_blockNames h
    · exact Form.mem_blockNamesAll args h
  | .choose condition yes no, h => by
    simp only [Form.blockNames, List.mem_append, List.mem_cons, List.not_mem_nil, or_false] at h
    rcases h with ((h | rfl | h) | rfl | h) | rfl
    · exact condition.mem_blockNames h
    · decide
    · exact yes.mem_blockNames h
    · decide
    · exact no.mem_blockNames h
    · decide

theorem Form.mem_blockNamesAll {name : String} : (forms : List Form) →
    name ∈ Form.blockNamesAll forms → name ∈ ["then", "else", "ifend"]
  | [], h => by simp [Form.blockNamesAll] at h
  | f :: rest, h => by
    rw [Form.blockNamesAll, List.mem_append] at h
    rcases h with h | h
    · exact f.mem_blockNames h
    · exact Form.mem_blockNamesAll rest h

end

/-- The leaves of a list are those of its items. -/
theorem Tree.mem_leaves_list {ν : Type} {items : List (Tree ν)} {leaf : Tree ν} :
    leaf ∈ (Tree.list items).leaves ↔ ∃ t ∈ items, leaf ∈ t.leaves := by
  rw [Tree.leaves]
  induction items with
  | nil => simp [Tree.leavesAll]
  | cons t items ih => simp [Tree.leavesAll, ih]

/-- The name that a declaration gives to its variable is a symbol of its target. -/
theorem symbol_of_declaredBy {strict : Bool} {target : Expr} {name : String} {ty : Ty}
    (h : Form.declaredBy strict target = .ok (name, ty)) : .symbol name ∈ target.leaves := by
  unfold Form.declaredBy at h
  split at h
  · cases h
    simp [Tree.leaves]
  · next name' ty' =>
    cases hty : resolveTy strict ty' with
    | error fault =>
      rw [hty] at h
      cases h
    | ok resolved =>
      rw [hty] at h
      cases h
      simp [Tree.leaves, Tree.leavesAll]
  · cases h
  · cases h
  · cases h

mutual

/-- A variable has its name from a symbol of the program. -/
theorem HasForm.symbol_of_variable {strict : Bool} {x : Variable} {loose : Bool} {e : Expr} :
    (f : Form) → HasForm strict e f → x ∈ f.variables loose → .symbol x.name ∈ e.leaves
  | .number _, _, hx | .truth _, _, hx | .text _, _, hx | .reference _, _, hx => by
    simp [Form.variables] at hx
  | .arith _ l r, h, hx => by
    cases h with
    | arith hleft hright =>
      rw [Form.variables, List.mem_append] at hx
      rcases hx with hx | hx
      · exact Tree.mem_leaves_list.2 ⟨_, by simp, hleft.symbol_of_variable l hx⟩
      · exact Tree.mem_leaves_list.2 ⟨_, by simp, hright.symbol_of_variable r hx⟩
  | .compare _ l r, h, hx => by
    cases h with
    | compare hleft hright =>
      rw [Form.variables, List.mem_append] at hx
      rcases hx with hx | hx
      · exact Tree.mem_leaves_list.2 ⟨_, by simp, hleft.symbol_of_variable l hx⟩
      · exact Tree.mem_leaves_list.2 ⟨_, by simp, hright.symbol_of_variable r hx⟩
  | .declare name _ init, h, hx => by
    cases h with
    | declare htarget hinit =>
      rw [Form.variables, List.mem_append, List.mem_singleton] at hx
      rcases hx with hx | rfl
      · exact Tree.mem_leaves_list.2 ⟨_, by simp, hinit.symbol_of_variable init hx⟩
      · exact Tree.mem_leaves_list.2 ⟨_, by simp, symbol_of_declaredBy htarget⟩
  | .assign _ value, h, hx => by
    cases h with
    | assign hvalue =>
      rw [Form.variables] at hx
      exact Tree.mem_leaves_list.2 ⟨_, by simp, hvalue.symbol_of_variable value hx⟩
  | .block first rest, h, hx => by
    cases h with
    | block hfirst hrest =>
      rw [Form.variables, List.mem_append] at hx
      rcases hx with hx | hx
      · exact Tree.mem_leaves_list.2 ⟨_, by simp, hfirst.symbol_of_variable first hx⟩
      · obtain ⟨e, he, hleaf⟩ := hrest.symbol_of_variables rest hx
        exact Tree.mem_leaves_list.2 ⟨e, by simp [he], hleaf⟩
  | .print template args, h, hx => by
    cases h with
    | print htemplate hargs =>
      rw [Form.variables, List.mem_append] at hx
      rcases hx with hx | hx
      · exact Tree.mem_leaves_list.2 ⟨_, by simp, htemplate.symbol_of_variable template hx⟩
      · obtain ⟨e, he, hleaf⟩ := hargs.symbol_of_variables args hx
        exact Tree.mem_leaves_list.2 ⟨e, by simp [he], hleaf⟩
  | .choose condition yes no, h, hx => by
    cases h with
    | choose hcondition hyes hno =>
      rw [Form.variables, List.mem_append, List.mem_append] at hx
      rcases hx with hx | hx | hx
      · exact Tree.mem_leaves_list.2 ⟨_, by simp, hcondition.symbol_of_variable condition hx⟩
      · exact Tree.mem_leaves_list.2 ⟨_, by simp, hyes.symbol_of_variable yes hx⟩
      · exact Tree.mem_leaves_list.2 ⟨_, by simp, hno.symbol_of_variable no hx⟩
  | .malformed _, h, _ => by cases h

theorem HaveForms.symbol_of_variables {strict : Bool} {x : Variable} {loose : Bool}
    {es : List Expr} : (forms : List Form) → HaveForms strict es forms →
      x ∈ Form.variablesAll loose forms → ∃ e ∈ es, .symbol x.name ∈ e.leaves
  | [], _, hx => by simp [Form.variablesAll] at hx
  | f :: rest, h, hx => by
    cases h with
    | cons hf hrest =>
      rw [Form.variablesAll, List.mem_append] at hx
      rcases hx with hx | hx
      · exact ⟨_, by simp, hf.symbol_of_variable f hx⟩
      · obtain ⟨e, he, hleaf⟩ := hrest.symbol_of_variables rest hx
        exact ⟨e, by simp [he], hleaf⟩

end

/-- No symbol goes on over the end of a line. -/
theorem Grammar.Symbol.newline_not_mem {w : List Char} (h : Symbol w) : '\n' ∉ w := by
  intro hmem
  exact h.plain _ hmem (by simp [Delimiter])

/-! ## Listings of compiled programs -/

/-- The standard options give a module one variable. -/
theorem eq_version {m : Module} (hm : m.globals = standardGlobals) {id : GlobalId}
    (h : (m.global? id).isSome) : id = version.id := by
  obtain ⟨i⟩ := id
  have hentries : m.globals.entries = [("VERSION", version)] := by
    rw [hm]
    rfl
  cases i with
  | zero => rfl
  | succ i => simp [Module.global?, Table.at?, hentries] at h

namespace Compiled

/-- Lowering a program leaves no number without a value. -/
theorem filled {options : Options} {program : Expr} {m : Module} {prepared : Module × Scopes}
    {v : Operand} {t : LowerState} (h : Compiled options program m prepared v t) :
    t.returned.builder.Filled := by
  have hstart : (options.start prepared).builder.Filled := by
    intro k hk
    exact absurd hk (Nat.not_lt_zero k)
  intro k hk
  obtain ⟨q, hq⟩ := Form.fills _ h.lowered h.ready.sound hstart k hk
  refine ⟨q, ?_⟩
  change _ ∈ results ((t.builder.conclude _).flow.code q)
  rwa [h.reaches.sound.opened.flow_conclude]

/-- The module has the print function and the compiled one. -/
theorem functions {options : Options} {program : Expr} {m : Module} {prepared : Module × Scopes}
    {v : Operand} {t : LowerState} (h : Compiled options program m prepared v t) :
    m.functions = ((∅ : Table String Func).insert printName (.declared printSignature)).insert
      options.entry ⟨options.signature, some t.returned.builder.body⟩ := by
  rw [h.module]
  change t.module.functions.insert t.builder.signature.name
    ⟨t.builder.signature, some t.returned.builder.body⟩ = _
  rw [h.reaches.sound.functions, h.signature]
  rfl

/-! ## Programs that are compiled with the standard options -/

variable {program : Expr} {m : Module} {prepared : Module × Scopes} {v : Operand} {t : LowerState}

/-- The standard options name the module and ask for one variable. -/
theorem standard (h : Compiled .standard program m prepared v t) :
    t.module.name = Options.standard.moduleName ∧ t.module.globals = standardGlobals := by
  have hprepared : prepared.1.name = Options.standard.moduleName ∧
      prepared.1.globals = standardGlobals := by
    have hprepares := h.prepares
    cases hprepares
    exact ⟨rfl, rfl⟩
  exact ⟨h.reaches.module.name.trans hprepared.1, h.reaches.module.globals.trans hprepared.2⟩

theorem plain_operand (h : Compiled .standard program m prepared v t) {w : Operand}
    (hw : w.Known t.module t.returned.builder) : w.Plain := by
  cases w with
  | global id => exact eq_version h.standard.2 hw
  | func name => exact Eq.trans hw (congrArg Signature.name h.signature)
  | _ => trivial

theorem plain_terminator (h : Compiled .standard program m prepared v t) {q : BlockId}
    {blk : Block} (hblk : t.returned.builder.body.block? q = some blk) :
    blk.terminator.Plain := by
  have hexit : t.returned.builder.flow.exit q = blk.terminator := Body.exit_of_block hblk
  constructor
  · intro w hw
    rw [← hexit] at hw
    exact h.plain_operand (h.finished.sound.exits hw)
  · rw [← hexit]
    exact h.finished.exits q (h.finished.lt_of_block hblk)

/-- The name of a slot is a symbol of the program. -/
theorem newline_not_mem_slotName (h : Compiled .standard program m prepared v t)
    (hprintable : program.Printable) {slot : StackSlot}
    (hslot : slot ∈ t.returned.builder.body.slots) : '\n' ∉ slot.name.toList := by
  have hname : slot.name ∈ t.slotNames := List.mem_map_of_mem hslot
  rw [h.slotNames] at hname
  obtain ⟨x, hx, hxname⟩ := List.mem_map.1 hname
  have hleaf := (h.lowered.hasForm program).symbol_of_variable _ hx
  have hsymbol : Grammar.Symbol x.name.toList := hprintable _ hleaf
  rw [← hxname]
  exact hsymbol.newline_not_mem

theorem plain_instr (h : Compiled .standard program m prepared v t)
    (hprintable : program.Printable) {q : BlockId} {i : Instr}
    (hi : i ∈ t.returned.builder.body.code q) : i.Plain := by
  obtain ⟨pre, post, hsplit⟩ := List.append_of_mem hi
  rcases h.finished.split hsplit with ⟨halloca, hnone, rfl⟩ | ⟨pre', hcode, -, -⟩
  · have hslots := List.mem_filter.2 ⟨hi, halloca⟩
    rw [h.finished.allocations] at hslots
    obtain ⟨slot, hslot, rfl⟩ := List.mem_map.1 hslots
    refine ⟨by simp [hnone], ?_, by rintro r callee args ⟨⟩⟩
    rintro _ _ _ ⟨⟩
    exact h.newline_not_mem_slotName hprintable hslot
  · have hmem : i ∈ t.returned.builder.flow.code q := by simp [hcode]
    refine ⟨fun w hw => h.plain_operand (h.finished.sound.operands hmem hw), ?_, ?_⟩
    · rintro slot ty name rfl
      cases h.finished.sound.plain hmem
    · rintro r callee args rfl
      exact (h.finished.sound.calls hmem).1

theorem plain_block (h : Compiled .standard program m prepared v t)
    (hprintable : program.Printable) {b : Block} (hb : b ∈ t.returned.builder.body.laidOut) :
    b.Plain := by
  have hblk := h.finished.mem_laidOut.1 hb
  have hname : b.name ∈ "entry" :: program.blockNames := by
    rw [← h.nested.named]
    exact List.mem_map_of_mem hb
  constructor
  · rcases List.mem_cons.1 hname with hname | hname
    · rw [hname]
      decide
    · rw [HasForm.blockNames_eq _ (h.lowered.hasForm program)] at hname
      have hwords := Form.mem_blockNames _ hname
      have hplain : ∀ name ∈ ["then", "else", "ifend"], '\n' ∉ name.toList := by decide
      exact hplain _ hwords
  · intro i hi
    rw [← Body.code_of_block hblk] at hi
    exact h.plain_instr hprintable hi
  · exact h.plain_terminator hblk

/-- The listing of a compiled program can be read. -/
theorem plain (h : Compiled .standard program m prepared v t) (hprintable : program.Printable) :
    m.Plain t.returned.builder.body where
  name := by
    rw [h.module]
    exact h.standard.1
  globals := by
    rw [h.module]
    exact h.standard.2
  functions := by
    rw [h.functions]
    rfl
  blocks b hb := h.plain_block hprintable hb

end Compiled

/-- What compiling a text has done. -/
theorem compile_compiled {options : Options} {source : String} {m : Module}
    (h : compile options source = .ok m) :
    ∃ program prepared v t, program.Printable ∧ Compiled options program m prepared v t := by
  unfold compile at h
  cases hread : readProgram source with
  | error e =>
    rw [hread] at h
    cases h
  | ok program =>
    rw [hread] at h
    obtain ⟨prepared, v, t, hc⟩ := compileExpr_compiled h
    exact ⟨program, prepared, v, t, printable_of_readExpr hread, hc⟩

/-- **A listing is a faithful snapshot.** Texts that compile to modules with the same listing compile
to the same module, whatever their literals and variables are. -/
theorem compile_eq_of_render {source source' : String} {m m' : Module}
    (h : compile .standard source = .ok m) (h' : compile .standard source' = .ok m')
    (htext : m.render .standard = m'.render .standard) : m = m' := by
  obtain ⟨program, prepared, v, t, hprintable, hc⟩ := compile_compiled h
  obtain ⟨program', prepared', v', t', hprintable', hc'⟩ := compile_compiled h'
  have hplain := hc.plain hprintable
  have hplain' := hc'.plain hprintable'
  obtain ⟨hstrings, hlaid⟩ := hplain.laidOut_of_render hplain' htext
  have hbody := hc.finished.body_eq hc'.finished hc.filled hc'.filled hlaid
  calc m = ⟨m.name, m.globals, m.strings, m.functions⟩ := rfl
    _ = ⟨m'.name, m'.globals, m'.strings, m'.functions⟩ := by
      rw [hplain.name, hplain'.name, hplain.globals, hplain'.globals, hstrings, hc.functions,
        hc'.functions, hbody]
    _ = m' := rfl

/-- The name of the variable and the literal look like parts of a listing. -/
def lookalike : String := "(var ;then 1) (printf \"\\n    return 0\\n\x7d\\n\")"

/-- The same with the variable in a block of its own. -/
def lookalikeInBlock : String := "(begin (var ;then 1)) (printf \"\\n    return 0\\n\x7d\\n\")"

theorem compile_eq_of_render_lookalike :
    ∃ m m', compile .standard lookalike = .ok m ∧ compile .standard lookalikeInBlock = .ok m' ∧
      m.render .standard = m'.render .standard ∧ m = m' := by
  obtain ⟨m, hm⟩ := exists_of_isOk (x := compile .standard lookalike) (by decide +kernel)
  obtain ⟨m', hm'⟩ := exists_of_isOk (x := compile .standard lookalikeInBlock) (by decide +kernel)
  have htext : (compile .standard lookalike).toOption.map (Module.render .standard) =
      (compile .standard lookalikeInBlock).toOption.map (Module.render .standard) := by
    decide +kernel
  have hrender : m.render .standard = m'.render .standard := by
    rw [hm, hm'] at htext
    exact Option.some.inj htext
  exact ⟨m, m', hm, hm', hrender, compile_eq_of_render hm hm' hrender⟩

end SexprSsa
