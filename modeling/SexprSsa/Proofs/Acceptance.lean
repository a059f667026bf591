/-
SexprSsa.Proofs.Acceptance — the compiler accepts its own output.

A compilation prepares a module, lowers the program as a whole and checks what
came out. Preparing fails only if a configured name is repeated, lowering only
for a reason that lies in the program, and the finished function passes the
check. What is left is the name of the entry function: the print function has
been declared, so an entry function of that name cannot be defined.

Main statements: `compileExpr_compiled` says what a successful compilation has
done, and `compileExpr_ir_error` which errors of the intermediate form a
compilation can report.
-/
import SexprSsa.Proofs.Finished
import SexprSsa.Proofs.Forms
import SexprSsa.Compile.Program

namespace SexprSsa

/-! ## Preparing a module -/

/-- `name` is the first in a list that repeats an earlier one. -/
def FirstRepeat (names : List String) (name : String) : Prop :=
  ∃ pre post, names = pre ++ name :: post ∧ pre.Nodup ∧ name ∈ pre

theorem FirstRepeat.not_nodup {names : List String} {name : String} (h : FirstRepeat names name) :
    ¬ names.Nodup := by
  obtain ⟨pre, post, rfl, -, hmem⟩ := h
  intro hnodup
  exact (List.nodup_append.1 hnodup).2.2 name hmem name (by simp) rfl

/-- A list has at most one first repetition. -/
theorem FirstRepeat.unique {names : List String} {n n' : String} (h : FirstRepeat names n)
    (h' : FirstRepeat names n') : n = n' := by
  obtain ⟨pre, post, rfl, hnodup, hmem⟩ := h
  obtain ⟨pre', post', heq, hnodup', hmem'⟩ := h'
  rcases List.append_eq_append_iff.1 heq with ⟨more, rfl, hrest⟩ | ⟨more, rfl, hrest⟩
  · cases more with
    | nil => exact (List.cons.inj hrest).1
    | cons a more =>
      obtain ⟨rfl, -⟩ := List.cons.inj hrest
      exact absurd rfl ((List.nodup_append.1 hnodup').2.2 n hmem n (by simp))
  · cases more with
    | nil => exact (List.cons.inj hrest).1.symm
    | cons a more =>
      obtain ⟨rfl, -⟩ := List.cons.inj hrest
      exact absurd rfl ((List.nodup_append.1 hnodup).2.2 n' hmem' n' (by simp))

/-- The names of some variables. -/
def globalNames (globals : List GlobalOption) : List String := globals.map GlobalOption.name

/-- The variables of the module are the configured ones, in order, and a name in scope refers to
the variable at its position. -/
structure Prepared (globals : List GlobalOption) (start : Module × Scopes) : Prop where
  keys : start.1.globals.keys = globalNames globals
  initial : start.1.globals.values.map GlobalVar.initial = globals.map fun g => .int g.value
  strings : start.1.strings = []
  functions : start.1.functions =
    (∅ : Table String Func).insert printName (.declared printSignature)
  names : ∀ name, start.2.lookup? name =
    ((globalNames globals).idxOf? name).map fun i => .global ⟨i⟩ .i32

theorem Prepared.size {globals : List GlobalOption} {start : Module × Scopes}
    (h : Prepared globals start) : start.1.globals.size = globals.length := by
  rw [← Table.length_keys, h.keys, globalNames, List.length_map]

theorem idxOf?_append_singleton {names : List String} {name other : String}
    (h : name ∉ names) : (names ++ [name]).idxOf? other =
      if other = name then some names.length else names.idxOf? other := by
  unfold List.idxOf?
  rw [List.findIdx?_append]
  by_cases hother : other = name
  · subst hother
    have hnone : names.findIdx? (· == other) = none := by
      rw [List.findIdx?_eq_none_iff]
      intro a ha
      simpa using fun e : a = other => h (e ▸ ha)
    simp [hnone]
  · have hne : (name == other) = false := by simpa using fun e : name = other => hother e.symm
    simp [hother, hne, List.findIdx?_cons]

/-- A configured variable can be added unless its name is taken. -/
theorem addConfigured_spec {globals : List GlobalOption} {start : Module × Scopes}
    (h : Prepared globals start) (g : GlobalOption) :
    (g.name ∈ globalNames globals → addConfigured start g = .error (.duplicateSymbol g.name)) ∧
      (g.name ∉ globalNames globals →
        ∃ next, addConfigured start g = .ok next ∧ Prepared (globals ++ [g]) next) := by
  obtain ⟨m, scopes⟩ := start
  have hcontains : m.globals.contains g.name = decide (g.name ∈ globalNames globals) := by
    rw [Table.contains_eq, ← h.keys]
  constructor
  · intro hmem
    simp only [addConfigured, Module.addGlobal, hcontains, hmem, decide_true, if_true]
    rfl
  · intro hmem
    have hkeys : g.name ∉ m.globals.keys := by
      rw [h.keys]
      exact hmem
    have hsize : m.globals.size = (globalNames globals).length := by
      rw [← Table.length_keys, h.keys]
    let var : GlobalVar := ⟨⟨m.globals.size⟩, g.name, .i32, .int g.value, false, 4⟩
    have hadd : addConfigured (m, scopes) g =
        .ok ({ m with globals := m.globals.insert g.name var },
          scopes.define g.name (.global ⟨m.globals.size⟩ .i32)) := by
      simp only [addConfigured, Module.addGlobal, hcontains, hmem, decide_false,
        Bool.false_eq_true, if_false]
      rfl
    refine ⟨_, hadd, ?_, ?_, h.strings, h.functions, fun name => ?_⟩
    · change (m.globals.insert g.name _).keys = _
      rw [Table.keys_insert, if_neg hkeys, h.keys]
      simp [globalNames]
    · change (((m.globals.insert g.name _).entries.map Prod.snd).map GlobalVar.initial) = _
      rw [m.globals.entries_insert_of_not_mem var hkeys, List.map_append, List.map_append,
        List.map_append, ← h.initial]
      rfl
    · have hold := h.names name
      have hnames : globalNames (globals ++ [g]) = globalNames globals ++ [g.name] := by
        simp [globalNames]
      rw [Scopes.lookup?_define, hold, hnames, idxOf?_append_singleton hmem, hsize]
      by_cases hname : name = g.name
      · rw [if_pos hname, if_pos hname]
        rfl
      · rw [if_neg hname, if_neg hname]

/-- The configured variables can be added unless a name is repeated. -/
theorem foldlM_addConfigured (globals : List GlobalOption) :
    ∀ {done : List GlobalOption} {start : Module × Scopes}, Prepared done start →
      (globalNames done).Nodup →
      (∃ next, globals.foldlM addConfigured start = .ok next ∧ Prepared (done ++ globals) next ∧
        (globalNames (done ++ globals)).Nodup) ∨
      ∃ name, globals.foldlM addConfigured start = .error (.duplicateSymbol name) ∧
        FirstRepeat (globalNames (done ++ globals)) name := by
  induction globals with
  | nil =>
    intro done start h hnodup
    exact .inl ⟨start, rfl, by simpa using h, by simpa using hnodup⟩
  | cons g rest ih =>
    intro done start h hnodup
    by_cases hmem : g.name ∈ globalNames done
    · refine .inr ⟨g.name, ?_, globalNames done, globalNames rest, ?_, hnodup, hmem⟩
      · rw [List.foldlM_cons, (addConfigured_spec h g).1 hmem]
        rfl
      · simp [globalNames]
    · obtain ⟨next, hnext, hprepared⟩ := (addConfigured_spec h g).2 hmem
      have hnodup' : (globalNames (done ++ [g])).Nodup := by
        rw [globalNames, List.map_append, List.nodup_append]
        refine ⟨hnodup, by simp, ?_⟩
        rintro name hname _ hg rfl
        obtain rfl : name = g.name := by simpa using hg
        exact hmem hname
      have hrest := ih hprepared hnodup'
      rw [List.append_assoc] at hrest
      rw [List.foldlM_cons, hnext]
      exact hrest

/-- The function that a program is compiled to. -/
def Options.signature (options : Options) : Signature := ⟨options.entry, [], .i32, false⟩

/-- The state in which a program is lowered. -/
def Options.start (options : Options) (prepared : Module × Scopes) : LowerState :=
  ⟨prepared.1, .start options.signature, prepared.2⟩

/-- What `prepare` leaves: the configured variables, and the entry function in scope. -/
structure Options.Ready (options : Options) (prepared : Module × Scopes) : Prop where
  nodup : (globalNames options.globals).Nodup
  configured : ∃ scopes, Prepared options.globals (prepared.1, scopes) ∧
    prepared.2 = scopes.define options.entry (.value (.func options.entry))

/-- Preparing fails only if a configured name is repeated, and then it names the first. -/
theorem prepare_spec (options : Options) :
    (∃ prepared, prepare options = .ok prepared ∧ options.Ready prepared) ∨
      ∃ name, prepare options = .error (.duplicateSymbol name) ∧
        FirstRepeat (globalNames options.globals) name := by
  let m : Module := { Module.empty options.moduleName with
    functions := (∅ : Table String Func).insert printName (.declared printSignature) }
  have hdeclare : (Module.empty options.moduleName).declare printSignature = .ok m := rfl
  have hstart : Prepared [] (m, Scopes.root []) :=
    ⟨rfl, rfl, rfl, rfl, fun _ => rfl⟩
  unfold prepare
  rw [hdeclare]
  rcases foldlM_addConfigured options.globals hstart List.nodup_nil with
    ⟨⟨m', scopes⟩, hfold, hprepared, hnodup⟩ | ⟨name, hfold, hrepeat⟩
  · refine .inl ⟨(m', scopes.define options.entry (.value (.func options.entry))), ?_, hnodup,
      scopes, hprepared, rfl⟩
    simp only [bind, Except.bind, hfold]
    rfl
  · refine .inr ⟨name, ?_, hrepeat⟩
    simp only [bind, Except.bind, hfold]

/-! ## The state at the start is sound -/

namespace Builder

theorem block?_start (signature : Signature) (q : BlockId) :
    (start signature).body.block? q =
      if (⟨0⟩ : BlockId) = q then some (.opened ⟨0⟩ "entry") else none :=
  Table.find?_insert ..

theorem flow_start (signature : Signature) :
    (start signature).flow = ⟨⟨0⟩, fun _ => [], fun _ => .missing⟩ := by
  ext1
  · rfl
  · funext q
    change List.drop _ ((start signature).body.code q) = []
    have hcode : (start signature).body.code q = [] := by
      unfold Body.code
      rw [block?_start]
      split <;> rfl
    rw [hcode, List.drop_nil]
  · funext q
    change (start signature).body.exit q = .missing
    unfold Body.exit
    rw [block?_start]
    split <;> rfl

theorem open_start (signature : Signature) : (start signature).Open [] where
  entry := rfl
  keys := rfl
  inhabited := Nat.one_pos
  ids {q blk} hq := by
    rw [block?_start] at hq
    split at hq
    · next hzero =>
      cases hq
      exact hzero
    · cases hq
  layout := .refl _
  sunk := rfl
  allocas := rfl
  cursor := rfl
  opened q := by
    obtain ⟨n⟩ := q
    rw [flow_start]
    change _ ∈ [(⟨0⟩ : BlockId)] ↔ n < 1 ∧ _
    simp
  empty q hq := by simp at hq
  nodup := by simp

theorem sound_start (m : Module) (signature : Signature) : (start signature).Sound m where
  ssa :=
    { fits := fun {q pre i post} hsplit => by simp [flow_start] at hsplit
      exits := fun q v hv => by simp [flow_start, Terminator.operands] at hv
      nodup := fun q => by simp [flow_start]
      apart := fun hv => by simp [flow_start] at hv }
  drawn hv := by simp [flow_start] at hv
  targets he := by simp [flow_start, Flow.Edge, Terminator.successors] at he
  operands hi := by simp [flow_start] at hi
  exits hv := by simp [flow_start, Terminator.operands] at hv
  plain hi := by simp [flow_start] at hi
  calls hi := by simp [flow_start] at hi
  returns he := by simp [flow_start] at he

end Builder

theorem Options.Ready.sound {options : Options} {prepared : Module × Scopes}
    (h : options.Ready prepared) : (options.start prepared).Sound [] := by
  obtain ⟨scopes, hprepared, hentry⟩ := h.configured
  refine ⟨Builder.open_start _, Builder.sound_start _ _, fun hi => ?_, hprepared.functions, ?_⟩
  · rw [show (options.start prepared).module.strings = [] from hprepared.strings] at hi
    simp at hi
  · intro name binding hname
    rw [show (options.start prepared).scopes = _ from hentry, Scopes.lookup?_define] at hname
    split at hname
    · cases hname
      rfl
    · rw [hprepared.names] at hname
      obtain ⟨i, hi, rfl⟩ := Option.map_eq_some_iff.1 hname
      have hlt : i < options.globals.length := by
        have := (List.findIdx?_eq_some_iff_getElem.1 hi).1
        simpa [globalNames] using this
      change ((prepared.1).global? ⟨i⟩).isSome = true
      unfold Module.global? Table.at?
      have hsize : prepared.1.globals.entries.length = options.globals.length := hprepared.size
      rw [List.getElem?_eq_getElem (by rw [hsize]; exact hlt)]
      rfl

/-! ## Finishing a function -/

namespace LowerState

/-- The program is over, and the function returns zero. -/
def returned (s : LowerState) : LowerState :=
  { s with builder := s.builder.conclude (.ret (some (.ofInt 0))) }

/-- The finished function. -/
def function (s : LowerState) : Func := ⟨s.builder.signature, some s.returned.builder.body⟩

/-- The module with the finished function. -/
def completed (s : LowerState) : Module :=
  { s.module with functions := s.module.functions.insert s.builder.signature.name s.function }

variable {s : LowerState}

theorem Sound.finished (h : s.Sound []) : s.returned.builder.Finished s.module where
  toShaped := by
    obtain ⟨blk, hblk⟩ := h.opened.exists_current
    exact h.opened.toShaped.conclude hblk _
  sound := by
    refine h.sound.conclude h.opened (by simp [Terminator.successors]) ?_ ?_
    · intro v hv
      obtain rfl : v = .ofInt 0 := by simpa [Terminator.operands] using hv
      exact ⟨trivial, by rintro w ⟨⟩⟩
    · rintro v ⟨⟩
      rfl
  exits q hq := h.opened.closed (by rintro ⟨⟩) q hq

theorem Sound.finish_eq (h : s.Sound []) : s.returned.builder.finish = .ok s.function := by
  have hopen : s.returned.builder.body.openBlock? = none := by
    unfold Body.openBlock?
    rw [List.find?_eq_none]
    intro blk hblk
    obtain ⟨⟨q, _⟩, he, rfl⟩ := List.mem_map.1 hblk
    have hq := (s.returned.builder.body.blocks.find?_eq_some_iff q _).2 he
    have hexit := h.finished.exits q (h.finished.lt_of_block hq)
    rw [show s.returned.builder.flow.exit q = _ from Body.exit_of_block hq] at hexit
    simpa [Block.isTerminated] using hexit
  unfold Builder.finish
  rw [hopen]
  rfl

theorem Sound.func?_eq (h : s.Sound []) (name : String) :
    s.module.func? name =
      if printName = name then some (.declared printSignature) else none := by
  unfold Module.func?
  rw [h.functions, Table.find?_insert]
  rfl

/-- The finished function cannot be defined if its name is taken by the print function. -/
theorem Sound.define_print (h : s.Sound []) (hname : s.builder.signature.name = printName)
    (hparams : s.builder.signature.params = []) :
    s.module.define s.function = .error (.duplicateSymbol printName) := by
  have hfunc : s.module.func? s.function.name = some (.declared printSignature) :=
    (h.func?_eq _).trans (if_pos hname.symm)
  have hne : ¬ (Func.declared printSignature).signature = s.function.signature := by
    intro he
    have hempty : printSignature.params = [] := (congrArg Signature.params he).trans hparams
    cases hempty
  unfold Module.define
  simp only [hfunc, hne, and_false, if_false]
  exact congrArg (fun name => Except.error (IrError.duplicateSymbol name)) hname

theorem Sound.define_ok (h : s.Sound []) (hname : s.builder.signature.name ≠ printName) :
    s.module.define s.function = .ok s.completed := by
  have hfunc : s.module.func? s.function.name = none :=
    (h.func?_eq _).trans (if_neg fun he => hname he.symm)
  unfold Module.define
  simp only [hfunc]
  rfl

/-- The functions of the module are the print function and the finished one. -/
theorem Sound.functions_completed (h : s.Sound [])
    (hname : s.builder.signature.name ≠ printName) :
    s.completed.functions.values = [.declared printSignature, s.function] := by
  have hkeys : s.builder.signature.name ∉
      ((∅ : Table String Func).insert printName (.declared printSignature)).keys := by
    simpa [Table.keys_insert] using hname
  change (s.module.functions.insert s.builder.signature.name s.function).entries.map _ = _
  rw [h.functions, Table.entries_insert_of_not_mem _ s.function hkeys]
  rfl

/-- The module with the finished function passes the check. -/
theorem Sound.verify_ok (h : s.Sound []) (hname : s.builder.signature.name ≠ printName)
    (hret : s.builder.signature.ret ≠ .void) : s.completed.verify = .ok () := by
  have hfunctions := h.functions_completed hname
  have hdefined : s.completed.defined = [s.function] := by
    unfold Module.defined
    rw [hfunctions]
    rfl
  have hholds : Builder.Holds s.module s.returned.builder s.completed := by
    refine ⟨fun _ => rfl, fun _ => rfl, ?_, ?_⟩
    · change (Table.find? (Table.insert _ _ _) s.builder.signature.name).isSome = true
      rw [Table.find?_insert_self]
      rfl
    · change Table.find? (Table.insert _ _ _) printName = _
      rw [Table.find?_insert_of_ne _ _ hname]
      exact (h.func?_eq printName).trans (if_pos rfl)
  have hcheck := h.finished.check hholds hret
  unfold Module.verify
  rw [hdefined]
  refine forM_eq_ok ?_
  intro f hf
  obtain rfl := List.mem_singleton.1 hf
  unfold Module.verifyFunc
  change ((s.returned.builder.body.check s.completed s.builder.signature.ret).mapError _) = _
  rw [hcheck]
  rfl

/-- The finished function is put into its module unless it has the print function's name. -/
theorem Sound.finishModule (h : s.Sound []) (hparams : s.builder.signature.params = [])
    (hret : s.builder.signature.ret ≠ .void) :
    (s.builder.signature.name = printName →
      SexprSsa.finishModule s.returned = .error (.duplicateSymbol printName)) ∧
    (s.builder.signature.name ≠ printName →
      SexprSsa.finishModule s.returned = .ok s.completed) := by
  have hmodule : s.returned.module = s.module := rfl
  constructor
  · intro hname
    unfold SexprSsa.finishModule
    rw [h.finish_eq, hmodule]
    simp only [Except.mapError, bind, Except.bind, h.define_print hname hparams]
  · intro hname
    unfold SexprSsa.finishModule
    rw [h.finish_eq, hmodule]
    simp only [Except.mapError, bind, Except.bind, h.define_ok hname,
      h.verify_ok hname hret]
    rfl

end LowerState

/-! ## Compilations -/

/-- A program is lowered as a whole by the rules, or reports an error of its own. -/
theorem lowerProgram_spec {s : LowerState} (hs : s.Sound []) (form : Form) :
    Meets CompileError.OfProgram (lowerProgram form) s fun _ s' =>
      ∃ v t, Lowered [] form s v t ∧ s' = t.returned := by
  unfold lowerProgram
  refine (form.lower_spec hs).bind ?_
  intro v t hlowered
  have ht := (form.reaches hlowered hs).1.sound
  exact .of_ok (Lower.build_eq (Build.conclude_eq ht.opened _)) ⟨v, t, hlowered, rfl⟩

/-- `m` has been compiled: the states before and after the program are `options.start prepared`
and `t`. -/
structure Compiled (options : Options) (program : Expr) (m : Module)
    (prepared : Module × Scopes) (v : Operand) (t : LowerState) : Prop where
  prepares : prepare options = .ok prepared
  ready : options.Ready prepared
  lowered : Lowered [] (.ofExpr options.strict program) (options.start prepared) v t
  entry : options.entry ≠ printName
  module : m = t.completed

/-- The program can be lowered with these options. -/
def Lowers (options : Options) (program : Expr) : Prop :=
  ∃ prepared s, prepare options = .ok prepared ∧
    lowerProgram (.ofExpr options.strict program) (options.start prepared) = (.ok (), s)

theorem compileExpr_eq {options : Options} {program : Expr} {prepared : Module × Scopes}
    (h : prepare options = .ok prepared) : compileExpr options program =
      match lowerProgram (.ofExpr options.strict program) (options.start prepared) with
      | (.error e, _) => .error e
      | (.ok (), s) => (finishModule s).mapError .ir := by
  unfold compileExpr
  rw [h]
  rfl

/-- What a compilation leads to, in the order of its phases. -/
theorem compileExpr_cases (options : Options) (program : Expr) :
    (∃ name, compileExpr options program = .error (.ir (.duplicateSymbol name)) ∧
      FirstRepeat (globalNames options.globals) name ∧ ¬ Lowers options program) ∨
    (globalNames options.globals).Nodup ∧
      ((∃ e, compileExpr options program = .error e ∧ e.OfProgram ∧ ¬ Lowers options program) ∨
      Lowers options program ∧
        (options.entry = printName ∧
          compileExpr options program = .error (.ir (.duplicateSymbol printName)) ∨
        ∃ m prepared v t, compileExpr options program = .ok m ∧
          Compiled options program m prepared v t)) := by
  rcases prepare_spec options with ⟨prepared, hprepare, hready⟩ | ⟨name, hprepare, hrepeat⟩
  · refine .inr ⟨hready.nodup, ?_⟩
    have hspec := lowerProgram_spec hready.sound (.ofExpr options.strict program)
    rcases hlower : lowerProgram (.ofExpr options.strict program) (options.start prepared) with
      ⟨e | ⟨⟩, s⟩
    · refine .inl ⟨e, ?_, hspec.error hlower, ?_⟩
      · rw [compileExpr_eq hprepare, hlower]
      · rintro ⟨prepared', s', hprepare', hlower'⟩
        rw [hprepare] at hprepare'
        cases hprepare'
        rw [hlower] at hlower'
        cases hlower'
    · refine .inr ⟨⟨prepared, s, hprepare, hlower⟩, ?_⟩
      obtain ⟨v, t, hlowered, rfl⟩ := hspec.ok hlower
      have hreaches := (Form.reaches _ hlowered hready.sound).1
      have hsignature : t.builder.signature = options.signature := hreaches.builder.signature
      have hfinish := hreaches.sound.finishModule (by rw [hsignature]; rfl)
        (by rw [hsignature]; rintro ⟨⟩)
      have hcompile : compileExpr options program = (finishModule t.returned).mapError .ir := by
        rw [compileExpr_eq hprepare, hlower]
      rw [hsignature] at hfinish
      by_cases hentry : options.entry = printName
      · refine .inl ⟨hentry, ?_⟩
        rw [hcompile, hfinish.1 hentry]
        rfl
      · refine .inr ⟨t.completed, prepared, v, t, ?_, hprepare, hready, hlowered, hentry, rfl⟩
        rw [hcompile, hfinish.2 hentry]
        rfl
  · refine .inl ⟨name, ?_, hrepeat, ?_⟩
    · unfold compileExpr
      rw [hprepare]
      rfl
    · rintro ⟨prepared', s', hprepare', -⟩
      rw [hprepare] at hprepare'
      cases hprepare'

/-- What a successful compilation has done. -/
theorem compileExpr_compiled {options : Options} {program : Expr} {m : Module}
    (h : compileExpr options program = .ok m) :
    ∃ prepared v t, Compiled options program m prepared v t := by
  rcases compileExpr_cases options program with
    ⟨_, herror, -⟩ | ⟨-, ⟨_, herror, -⟩ | ⟨-, ⟨-, herror⟩ | ⟨m', prepared, v, t, hok, hc⟩⟩⟩
  · rw [h] at herror
    cases herror
  · rw [h] at herror
    cases herror
  · rw [h] at herror
    cases herror
  · rw [h] at hok
    cases hok
    exact ⟨prepared, v, t, hc⟩

/-- Whatever the program, a compilation reports neither a missing declaration nor an error of the
intermediate form other than a duplicate symbol. A duplicate symbol is the first configured name
that repeats an earlier one; or no name is repeated, the program can be lowered, and the entry
function has the name of the print function. -/
theorem compileExpr_ir_error (options : Options) (program : Expr) :
    (∀ name, compileExpr options program ≠ .error (.notDeclared name)) ∧
    (∀ e, compileExpr options program = .error (.ir e) → ∃ name, e = .duplicateSymbol name) ∧
    ∀ name, compileExpr options program = .error (.ir (.duplicateSymbol name)) ↔
      FirstRepeat (globalNames options.globals) name ∨
      (globalNames options.globals).Nodup ∧ Lowers options program ∧
        options.entry = printName ∧ name = printName := by
  rcases compileExpr_cases options program with ⟨n, herror, hrepeat, hnot⟩ |
    ⟨hnodup, ⟨e, herror, hprogram, hnot⟩ | ⟨hlowers, ⟨hentry, herror⟩ | ⟨m, _, _, _, hok, hc⟩⟩⟩
  · rw [herror]
    refine ⟨by rintro name ⟨⟩, by rintro e ⟨⟩; exact ⟨n, rfl⟩, fun name => ⟨?_, ?_⟩⟩
    · rintro ⟨⟩
      exact .inl hrepeat
    · rintro (hrepeat' | ⟨-, hlowers, -⟩)
      · rw [hrepeat.unique hrepeat']
      · exact absurd hlowers hnot
  · rw [herror]
    refine ⟨?_, ?_, fun name => ⟨?_, ?_⟩⟩
    · rintro name ⟨⟩
      exact hprogram
    · rintro e' ⟨⟩
      exact absurd hprogram id
    · rintro ⟨⟩
      exact absurd hprogram id
    · rintro (hrepeat | ⟨-, hlowers, -⟩)
      · exact absurd hnodup hrepeat.not_nodup
      · exact absurd hlowers hnot
  · rw [herror]
    refine ⟨by rintro name ⟨⟩, by rintro e ⟨⟩; exact ⟨printName, rfl⟩, fun name => ⟨?_, ?_⟩⟩
    · rintro ⟨⟩
      exact .inr ⟨hnodup, hlowers, hentry, rfl⟩
    · rintro (hrepeat | ⟨-, -, -, rfl⟩)
      · exact absurd hnodup hrepeat.not_nodup
      · rfl
  · rw [hok]
    refine ⟨by rintro name ⟨⟩, by rintro e ⟨⟩, fun name => ⟨by rintro ⟨⟩, ?_⟩⟩
    rintro (hrepeat | ⟨-, -, hentry, -⟩)
    · exact absurd hnodup hrepeat.not_nodup
    · exact absurd hentry hc.entry

end SexprSsa
