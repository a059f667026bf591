/-
SexprSsa.Proofs.RenamedLowering — names matter only up to identity.

Lowering looks names up, binds them and hands them on to slots, and does
nothing else with them. So two runs of it, on a form and on the renamed form,
go side by side: in both the same operations follow each other with the same
operands, a name and its new name refer to the same thing, and the functions
differ in the names of slots (`LowerState.Renamed`). `Lower.Mirrors` is the
judgement for two such runs; `bind` is its rule, and there is one lemma for
each place where a name is used.

Main statement: `compileExpr_rename`. It needs the renaming to be injective,
so that different variables stay different, and to leave alone the two symbols
that are literals and the names that the options bring into scope.
-/
import SexprSsa.Proofs.Acceptance
import SexprSsa.Proofs.Renaming
import Mathlib.Logic.Equiv.Basic

namespace SexprSsa

variable {r : String → String}

/-! ## Two runs side by side -/

/-- The second state is the first with its variables renamed: a name refers under its new name to
what it referred to before. -/
structure LowerState.Renamed (r : String → String) (s s' : LowerState) : Prop where
  module : s'.module = s.module
  builder : s'.builder = s.builder.renameSlots r
  names : ∀ name, s'.scopes.lookup? (r name) = s.scopes.lookup? name

namespace Lower

/-- From renamed states, the second computation returns or fails as the first does, and the states
that the two leave are renamed again. -/
def Mirrors (r : String → String) {α : Type} (x x' : Lower α) : Prop :=
  ∀ s s', s.Renamed r s' → (x' s').1 = (x s).1.mapError (CompileError.rename r) ∧
    (x s).2.Renamed r (x' s').2

namespace Mirrors

variable {α β : Type} {x x' : Lower α}

theorem pure (a : α) : Mirrors r (Pure.pure a) (Pure.pure a) := fun _ _ h => ⟨rfl, h⟩

theorem throw (e : CompileError) :
    Mirrors r (throw e : Lower α) (MonadExcept.throw (e.rename r)) := fun _ _ h => ⟨rfl, h⟩

/-- Both computations fail, or both return the same. -/
theorem cases (hx : Mirrors r x x') {s s' : LowerState} (hs : s.Renamed r s') :
    (∃ e t t', x s = (.error e, t) ∧ x' s' = (.error (e.rename r), t')) ∨
      ∃ a t t', x s = (.ok a, t) ∧ x' s' = (.ok a, t') ∧ t.Renamed r t' := by
  obtain ⟨hresult, hstate⟩ := hx s s' hs
  rcases hrun' : x' s' with ⟨result', t'⟩
  rcases hrun : x s with ⟨e | a, t⟩
  · rw [hrun, hrun'] at hresult
    exact .inl ⟨e, t, t', rfl, congrArg (·, t') hresult⟩
  · rw [hrun, hrun'] at hresult hstate
    exact .inr ⟨a, t, t', rfl, congrArg (·, t') hresult, hstate⟩

theorem bind {f f' : α → Lower β} (hx : Mirrors r x x') (hf : ∀ a, Mirrors r (f a) (f' a)) :
    Mirrors r (x >>= f) (x' >>= f') := by
  intro s s' hs
  rcases hx.cases hs with ⟨e, t, t', hrun, hrun'⟩ | ⟨a, t, t', hrun, hrun', ht⟩
  · have hstate := (hx s s' hs).2
    rw [hrun, hrun'] at hstate
    rw [bind_of_error hrun, bind_of_error hrun']
    exact ⟨rfl, hstate⟩
  · rw [bind_of_ok hrun, bind_of_ok hrun']
    exact hf a t t' ht

end Mirrors

/-! ## Where names are used -/

/-- Building goes on alike in the two functions. -/
theorem mirrors_build {α : Type} {x x' : Build α} (h : Build.Commutes r x x') :
    Mirrors r (build x) (build x') := by
  intro s s' hs
  unfold build
  rw [hs.builder, h s.builder]
  rcases x s.builder with ⟨e | a, b⟩
  · exact ⟨rfl, hs.module, rfl, hs.names⟩
  · exact ⟨rfl, hs.module, rfl, hs.names⟩

theorem mirrors_resolve (name : String) : Mirrors r (resolve name) (resolve (r name)) := by
  intro s s' hs
  unfold resolve
  rw [hs.names name]
  cases s.scopes.lookup? name with
  | none => exact ⟨rfl, hs⟩
  | some binding => exact ⟨rfl, hs⟩

/-- A name that is bound hides the same names, since different names stay different. -/
theorem mirrors_define (hr : Function.Injective r) (name : String) (binding : Binding) :
    Mirrors r (define name binding) (define (r name) binding) := by
  intro s s' hs
  refine ⟨rfl, hs.module, hs.builder, fun other => ?_⟩
  change (s'.scopes.define (r name) binding).lookup? (r other) =
    (s.scopes.define name binding).lookup? other
  rw [Scopes.lookup?_define, Scopes.lookup?_define, hs.names other]
  simp only [hr.eq_iff]

theorem mirrors_inScope {α : Type} {x x' : Lower α} (h : Mirrors r x x') :
    Mirrors r (inScope x) (inScope x') := by
  intro s s' hs
  have hpush : LowerState.Renamed r { s with scopes := s.scopes.push }
      { s' with scopes := s'.scopes.push } := by
    refine ⟨hs.module, hs.builder, fun name => ?_⟩
    rw [Scopes.lookup?_push, Scopes.lookup?_push, hs.names name]
  obtain ⟨hresult, hstate⟩ := h _ _ hpush
  exact ⟨hresult, hstate.module, hstate.builder, hs.names⟩

theorem mirrors_string (value : String) : Mirrors r (string value) (string value) := by
  intro s s' hs
  unfold string
  rw [hs.module]
  exact ⟨rfl, rfl, hs.builder, hs.names⟩

theorem mirrors_requirePrint : Mirrors r requirePrint requirePrint := by
  intro s s' hs
  unfold requirePrint
  rw [hs.module]
  cases s.module.func? printName with
  | none => exact ⟨rfl, hs⟩
  | some f => exact ⟨rfl, hs⟩

theorem mirrors_readName (name : String) : Mirrors r (readName name) (readName (r name)) := by
  refine (mirrors_resolve name).bind fun binding => ?_
  cases binding with
  | value operand => exact .pure operand
  | slot id ty => exact mirrors_build (Build.commutes_compute fun v => rfl)
  | global id ty => exact mirrors_build (Build.commutes_compute fun v => rfl)

theorem mirrors_declareName (hr : Function.Injective r) (name : String) (ty : Ty)
    (value : Operand) : Mirrors r (declareName name ty value) (declareName (r name) ty value) :=
  (mirrors_build (Build.commutes_alloca name ty)).bind fun _ =>
    (mirrors_define hr name _).bind fun _ => mirrors_build (Build.commutes_store _ value)

theorem mirrors_assignName (name : String) (value : Operand) :
    Mirrors r (assignName name value) (assignName (r name) value) := by
  refine (mirrors_resolve name).bind fun binding => ?_
  cases binding.address? with
  | none => exact .throw (.notAssignable name)
  | some p => exact mirrors_build (Build.commutes_store p.1 value)

theorem commutes_fork (condition : Operand) :
    Build.Commutes r (fork condition) (fork condition) :=
  (Build.commutes_createBlock "then").bind fun yes =>
    (Build.commutes_createBlock "else").bind fun no =>
      (Build.commutes_createBlock "ifend").bind fun _ =>
        (Build.commutes_seal (.branch condition yes no)).bind fun _ =>
          (Build.commutes_switchTo yes).bind fun _ => .pure _

theorem commutes_closeBranch (join next : BlockId) :
    Build.Commutes r (closeBranch join next) (closeBranch join next) :=
  Build.commutes_currentBlock.bind fun last =>
    (Build.commutes_seal (.jump join)).bind fun _ =>
      (Build.commutes_moveAfter next last).bind fun _ =>
        (Build.commutes_switchTo next).bind fun _ => .pure _

theorem commutes_merge (incoming : List (Operand × BlockId)) :
    Build.Commutes r (merge incoming) (merge incoming) := by
  intro b
  exact Build.commutes_compute (i := fun v => .phi v b.signature.ret incoming) (fun v => rfl) b

end Lower

open Lower

/-! ## Forms -/

namespace Form

mutual

/-- **A renamed form is lowered as the form is.** -/
theorem lower_rename (hr : Function.Injective r) :
    (form : Form) → Mirrors r form.lower (form.rename r).lower
  | .number value => by
    rw [rename, lower]
    exact .pure _
  | .truth value => by
    rw [rename, lower]
    exact .pure _
  | .text value => by
    rw [rename, lower]
    exact mirrors_string value
  | .reference name => by
    rw [rename, lower, lower]
    exact mirrors_readName name
  | .arith op left right => by
    rw [rename, lower, lower]
    exact (lower_rename hr left).bind fun a => (lower_rename hr right).bind fun b =>
      mirrors_build (Build.commutes_compute fun v => rfl)
  | .compare cond left right => by
    rw [rename, lower, lower]
    exact (lower_rename hr left).bind fun a => (lower_rename hr right).bind fun b =>
      mirrors_build (Build.commutes_compute fun v => rfl)
  | .declare name ty init => by
    rw [rename, lower, lower]
    exact (lower_rename hr init).bind fun value =>
      (mirrors_declareName hr name ty value).bind fun _ => .pure _
  | .assign name value => by
    rw [rename, lower, lower]
    exact (lower_rename hr value).bind fun value =>
      (mirrors_assignName name value).bind fun _ => .pure _
  | .block first rest => by
    rw [rename, lower, lower]
    exact mirrors_inScope <| (lower_rename hr first).bind fun value =>
      (lowerAll_rename hr rest).bind fun values => .pure _
  | .print template args => by
    rw [rename, lower, lower]
    exact mirrors_requirePrint.bind fun _ => (lower_rename hr template).bind fun template =>
      (lowerAll_rename hr args).bind fun args =>
        mirrors_build (Build.commutes_compute fun v => rfl)
  | .choose condition yes no => by
    rw [rename, lower, lower]
    exact (lower_rename hr condition).bind fun condition =>
      (mirrors_build (commutes_fork condition)).bind fun blocks =>
        (lower_rename hr yes).bind fun yesValue =>
          (mirrors_build (commutes_closeBranch blocks.join blocks.no)).bind fun yesEnd =>
            (lower_rename hr no).bind fun noValue =>
              (mirrors_build (commutes_closeBranch blocks.join blocks.join)).bind fun noEnd =>
                mirrors_build (commutes_merge _)
  | .malformed fault => by
    rw [rename, lower, lower]
    exact .throw (.malformed fault)

theorem lowerAll_rename (hr : Function.Injective r) :
    (forms : List Form) → Mirrors r (lowerAll forms) (lowerAll (renameAll r forms))
  | [] => by
    rw [renameAll, lowerAll]
    exact .pure _
  | form :: rest => by
    rw [renameAll, lowerAll, lowerAll]
    exact (lower_rename hr form).bind fun value =>
      (lowerAll_rename hr rest).bind fun values => .pure _

end

end Form

/-! ## Whole programs -/

/-- A renaming of the variables of programs that are compiled with the options. -/
structure Options.Renaming (options : Options) (r : String → String) : Prop where
  injective : Function.Injective r
  truth : r "true" = "true"
  falsity : r "false" = "false"
  entry : r options.entry = options.entry
  globals : ∀ g ∈ options.globals, r g.name = g.name

/-- A renaming that leaves some names alone gives no other name one of them. -/
theorem idxOf?_rename (hr : Function.Injective r) {names : List String}
    (hfixed : ∀ n ∈ names, r n = n) (name : String) :
    names.idxOf? (r name) = names.idxOf? name := by
  induction names with
  | nil => rfl
  | cons n rest ih =>
    obtain ⟨hn, hrest⟩ := List.forall_mem_cons.1 hfixed
    have heq : (n == r name) = (n == name) := by
      have hiff := hr.eq_iff (a := n) (b := name)
      rw [hn] at hiff
      exact Bool.eq_iff_iff.2 (by simpa using hiff)
    rw [List.idxOf?_cons, List.idxOf?_cons, heq, ih hrest]

namespace Options.Renaming

variable {options : Options} {prepared : Module × Scopes}

theorem start (h : options.Renaming r) (hready : options.Ready prepared) :
    (options.start prepared).Renamed r (options.start prepared) := by
  obtain ⟨scopes, hprepared, hentry⟩ := hready.configured
  refine ⟨rfl, rfl, fun name => ?_⟩
  change prepared.2.lookup? (r name) = prepared.2.lookup? name
  have hiff : r name = options.entry ↔ name = options.entry := by
    have hiff := h.injective.eq_iff (a := name) (b := options.entry)
    rwa [h.entry] at hiff
  have hglobals : ∀ n ∈ globalNames options.globals, r n = n := by
    intro n hn
    obtain ⟨g, hg, rfl⟩ := List.mem_map.1 hn
    exact h.globals g hg
  rw [hentry, Scopes.lookup?_define, Scopes.lookup?_define, hprepared.names, hprepared.names,
    idxOf?_rename h.injective hglobals]
  simp only [hiff]

end Options.Renaming

/-- A whole function is lowered as the renamed one is. -/
theorem lowerProgram_rename (hr : Function.Injective r) (form : Form) :
    Mirrors r (lowerProgram form) (lowerProgram (form.rename r)) :=
  (form.lower_rename hr).bind fun _ => mirrors_build (Build.commutes_seal _)

/-- Finished functions that differ in the names of their slots make modules that do. -/
theorem LowerState.Renamed.completed {s s' : LowerState} (hs : s.Sound [])
    (hsignature : s'.builder.signature = s.builder.signature)
    (h : s.returned.Renamed r s'.returned) : s'.completed = s.completed.renameSlots r := by
  have hmodule : s'.module = s.module := h.module
  have hbody : s'.returned.builder.body = s.returned.builder.body.renameSlots r :=
    congrArg Builder.body h.builder
  have hdeclared : s.module.functions.mapValues (Func.renameSlots r) = s.module.functions := by
    rw [hs.functions]
    rfl
  unfold LowerState.completed Module.renameSlots
  simp only [function, hmodule, hbody, hsignature, Table.mapValues_insert, hdeclared]
  rfl

theorem finishModule_rename {options : Options} {s s' : LowerState} (hs : s.Sound [])
    (hs' : s'.Sound []) (hsignature : s.builder.signature = options.signature)
    (hsignature' : s'.builder.signature = options.signature)
    (h : s.returned.Renamed r s'.returned) :
    finishModule s'.returned = (finishModule s.returned).map (Module.renameSlots r) := by
  have hfinish := hs.finishModule (by rw [hsignature]; rfl) (by rw [hsignature]; rintro ⟨⟩)
  have hfinish' := hs'.finishModule (by rw [hsignature']; rfl) (by rw [hsignature']; rintro ⟨⟩)
  rw [hsignature] at hfinish
  rw [hsignature'] at hfinish'
  by_cases hentry : options.entry = printName
  · rw [hfinish.1 hentry, hfinish'.1 hentry]
    rfl
  · rw [hfinish.2 hentry, hfinish'.2 hentry, h.completed hs (hsignature'.trans hsignature.symm)]
    rfl

/-- **Names matter only up to identity.** Of a program and the same program with its variables
renamed, both compile or neither does. The two modules are the same but for the names of slots,
which are renamed, and the two errors are the same but for the variables that they name. -/
theorem compileExpr_rename {options : Options} (h : options.Renaming r) (program : Expr) :
    compileExpr options (program.rename r) =
      match compileExpr options program with
      | .ok m => .ok (m.renameSlots r)
      | .error e => .error (e.rename r) := by
  rcases prepare_spec options with ⟨prepared, hprepare, hready⟩ | ⟨name, hprepare, -⟩
  · rw [compileExpr_eq hprepare, compileExpr_eq hprepare,
      Form.ofExpr_rename h.injective h.truth h.falsity]
    have hspec := lowerProgram_spec hready.sound (.ofExpr options.strict program)
    have hspec' := lowerProgram_spec hready.sound ((Form.ofExpr options.strict program).rename r)
    rcases (lowerProgram_rename h.injective (.ofExpr options.strict program)).cases
      (h.start hready) with ⟨e, t, t', hrun, hrun'⟩ | ⟨⟨⟩, s, s', hrun, hrun', hrenamed⟩
    · rw [hrun, hrun']
    · obtain ⟨v, t, hlowered, rfl⟩ := hspec.ok hrun
      obtain ⟨v', t', hlowered', rfl⟩ := hspec'.ok hrun'
      have hreaches := (Form.reaches _ hlowered hready.sound).1
      have hreaches' := (Form.reaches _ hlowered' hready.sound).1
      have hsignature : t.builder.signature = options.signature := hreaches.builder.signature
      have hsignature' : t'.builder.signature = options.signature := hreaches'.builder.signature
      have hfinish := finishModule_rename hreaches.sound hreaches'.sound hsignature hsignature'
        hrenamed
      rw [hrun, hrun']
      dsimp only
      rw [hfinish]
      cases finishModule t.returned <;> rfl
  · unfold compileExpr
    rw [hprepare]
    rfl

/-- `(begin (var x 1) (printf "%d" x))` -/
def plainVariable : Expr :=
  .list [.symbol "begin", .list [.symbol "var", .symbol "x", .number 1],
    .list [.symbol "printf", .text "%d", .symbol "x"]]

/-- `(begin (var printf 1) (printf "%d" printf))` -/
def printfVariable : Expr :=
  .list [.symbol "begin", .list [.symbol "var", .symbol "printf", .number 1],
    .list [.symbol "printf", .text "%d", .symbol "printf"]]

/-- A variable with the name of a form is a variable like others. -/
theorem compileExpr_rename_printfVariable :
    Options.standard.Renaming (Equiv.swap "x" "printf") ∧
      plainVariable.rename (Equiv.swap "x" "printf") = printfVariable ∧
      ∃ m, compileExpr .standard plainVariable = .ok m ∧
        compileExpr .standard printfVariable = .ok (m.renameSlots (Equiv.swap "x" "printf")) := by
  have hrenaming : Options.standard.Renaming (Equiv.swap "x" "printf") :=
    ⟨Equiv.injective _, by decide, by decide, by decide, by decide⟩
  have hrename : plainVariable.rename (Equiv.swap "x" "printf") = printfVariable := by
    decide
  have hcompile := compileExpr_rename hrenaming plainVariable
  have hok : (compileExpr .standard plainVariable).isOk = true := by decide +kernel
  cases hm : compileExpr .standard plainVariable with
  | error e =>
    rw [hm] at hok
    cases hok
  | ok m =>
    rw [hm, hrename] at hcompile
    exact ⟨hrenaming, hrename, m, rfl, hcompile⟩

end SexprSsa
