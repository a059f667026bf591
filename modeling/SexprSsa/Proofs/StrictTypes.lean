/-
SexprSsa.Proofs.StrictTypes — strict type names only reject.

Whether type names are strict shows in one place, the target of a declaration,
and before anything of the declaration is lowered. So the form of a program
under strict type names is its form under lenient ones, except that some
declarations are refused (`Form.Stricter`). Two runs of lowering on such forms
do the same until the first comes to a declaration that is refused
(`Lower.Tightens`).

Main statement: `compileExpr_strict`.
-/
import SexprSsa.Proofs.Acceptance
import SexprSsa.Proofs.WellFormed

namespace SexprSsa

/-! ## Two runs side by side -/

namespace Lower

/-- From every state the two computations do the same, and do not complain about a type; or the
first complains about one that is `refused`. -/
def Tightens (refused : String → Prop) {α : Type} (x y : Lower α) : Prop :=
  ∀ s, x s = y s ∧ (∀ ty, (x s).1 ≠ .error (.malformed (.unknownType ty))) ∨
    ∃ ty, refused ty ∧ (x s).1 = .error (.malformed (.unknownType ty))

namespace Tightens

variable {refused : String → Prop} {α β : Type} {x y : Lower α}

theorem pure (a : α) : Tightens refused (Pure.pure a) (Pure.pure a) :=
  fun _ => .inl ⟨rfl, by rintro ty ⟨⟩⟩

theorem throw {e : CompileError} (he : ∀ ty, e ≠ .malformed (.unknownType ty)) :
    Tightens refused (throw e : Lower α) (MonadExcept.throw e) := by
  refine fun s => .inl ⟨rfl, fun ty h => he ty ?_⟩
  cases h
  rfl

/-- A refused type is a complaint of the first computation, whatever the second does. -/
theorem refuse {ty : String} (h : refused ty) :
    Tightens refused (MonadExcept.throw (.malformed (.unknownType ty))) y :=
  fun _ => .inr ⟨ty, h, rfl⟩

theorem bind {f g : α → Lower β} (hx : Tightens refused x y)
    (hf : ∀ a, Tightens refused (f a) (g a)) : Tightens refused (x >>= f) (y >>= g) := by
  intro s
  rcases hrun : x s with ⟨e | a, t⟩
  · rw [bind_of_error hrun]
    rcases hx s with ⟨hsame, hknown⟩ | ⟨ty, hty, hrefused⟩
    · rw [hrun] at hsame hknown
      rw [bind_of_error hsame.symm]
      refine .inl ⟨rfl, fun ty h => hknown ty ?_⟩
      cases h
      rfl
    · rw [hrun] at hrefused
      cases hrefused
      exact .inr ⟨ty, hty, rfl⟩
  · rcases hx s with ⟨hsame, -⟩ | ⟨ty, -, hrefused⟩
    · rw [hrun] at hsame
      rw [bind_of_ok hrun, bind_of_ok hsame.symm]
      exact hf a t
    · rw [hrun] at hrefused
      cases hrefused

theorem inScope (h : Tightens refused x y) :
    Tightens refused (Lower.inScope x) (Lower.inScope y) := by
  intro s
  rcases h { s with scopes := s.scopes.push } with ⟨hsame, hknown⟩ | ⟨ty, hty, hrefused⟩
  · refine .inl ⟨?_, hknown⟩
    unfold Lower.inScope
    rw [hsame]
  · exact .inr ⟨ty, hty, hrefused⟩

end Tightens

variable {refused : String → Prop}

/-! ## Steps that know no types -/

theorem tightens_build {α : Type} (x : Build α) : Tightens refused (build x) (build x) := by
  refine fun s => .inl ⟨rfl, fun ty => ?_⟩
  unfold build
  split <;> rintro ⟨⟩

theorem tightens_resolve (name : String) : Tightens refused (resolve name) (resolve name) := by
  refine fun s => .inl ⟨rfl, fun ty => ?_⟩
  unfold resolve
  split <;> rintro ⟨⟩

theorem tightens_define (name : String) (binding : Binding) :
    Tightens refused (define name binding) (define name binding) :=
  fun _ => .inl ⟨rfl, by rintro ty ⟨⟩⟩

theorem tightens_string (value : String) : Tightens refused (string value) (string value) :=
  fun _ => .inl ⟨rfl, by rintro ty ⟨⟩⟩

theorem tightens_requirePrint : Tightens refused requirePrint requirePrint := by
  refine fun s => .inl ⟨rfl, fun ty => ?_⟩
  unfold requirePrint
  split <;> rintro ⟨⟩

theorem tightens_readName (name : String) : Tightens refused (readName name) (readName name) := by
  refine (tightens_resolve name).bind fun binding => ?_
  cases binding with
  | value operand => exact .pure operand
  | slot id ty => exact tightens_build _
  | global id ty => exact tightens_build _

theorem tightens_declareName (name : String) (ty : Ty) (value : Operand) :
    Tightens refused (declareName name ty value) (declareName name ty value) :=
  (tightens_build _).bind fun _ => (tightens_define name _).bind fun _ => tightens_build _

theorem tightens_assignName (name : String) (value : Operand) :
    Tightens refused (assignName name value) (assignName name value) := by
  refine (tightens_resolve name).bind fun binding => ?_
  cases binding.address? with
  | none => exact .throw (by rintro ty ⟨⟩)
  | some p => exact tightens_build _

end Lower

open Lower

/-! ## Forms -/

namespace Form

variable {refused : String → Prop}

mutual

/-- The first form is the second, but for some declarations that are refused for their types. -/
inductive Stricter (refused : String → Prop) : Form → Form → Prop
  | refuse {ty : String} {f : Form} : refused ty → Stricter refused (.malformed (.unknownType ty)) f
  | malformed {fault : FormFault} : (∀ ty, fault ≠ .unknownType ty) →
      Stricter refused (.malformed fault) (.malformed fault)
  | number {value : Int32} : Stricter refused (.number value) (.number value)
  | truth {value : Bool} : Stricter refused (.truth value) (.truth value)
  | text {value : String} : Stricter refused (.text value) (.text value)
  | reference {name : String} : Stricter refused (.reference name) (.reference name)
  | arith {op : ArithOp} {l r l' r' : Form} : Stricter refused l l' → Stricter refused r r' →
      Stricter refused (.arith op l r) (.arith op l' r')
  | compare {cond : Cond} {l r l' r' : Form} : Stricter refused l l' → Stricter refused r r' →
      Stricter refused (.compare cond l r) (.compare cond l' r')
  | declare {name : String} {ty : Ty} {f f' : Form} : Stricter refused f f' →
      Stricter refused (.declare name ty f) (.declare name ty f')
  | assign {name : String} {f f' : Form} : Stricter refused f f' →
      Stricter refused (.assign name f) (.assign name f')
  | block {f f' : Form} {forms forms' : List Form} : Stricter refused f f' →
      AllStricter refused forms forms' → Stricter refused (.block f forms) (.block f' forms')
  | print {f f' : Form} {forms forms' : List Form} : Stricter refused f f' →
      AllStricter refused forms forms' → Stricter refused (.print f forms) (.print f' forms')
  | choose {c y n c' y' n' : Form} : Stricter refused c c' → Stricter refused y y' →
      Stricter refused n n' → Stricter refused (.choose c y n) (.choose c' y' n')

/-- The first forms are stricter than the second, one by one. -/
inductive AllStricter (refused : String → Prop) : List Form → List Form → Prop
  | nil : AllStricter refused [] []
  | cons {f f' : Form} {forms forms' : List Form} : Stricter refused f f' →
      AllStricter refused forms forms' → AllStricter refused (f :: forms) (f' :: forms')

end

mutual

/-- Lowering a stricter form does the same, or complains about a type that is refused. -/
theorem Stricter.lower : (f : Form) → {f' : Form} → Stricter refused f f' →
    Tightens refused f.lower f'.lower
  | .malformed _, _, h => by
    cases h with
    | refuse hty =>
      rw [lower]
      exact .refuse hty
    | malformed hfault =>
      rw [lower]
      refine .throw fun ty he => hfault ty ?_
      cases he
      rfl
  | .number _, _, .number => by
    rw [lower]
    exact .pure _
  | .truth _, _, .truth => by
    rw [lower]
    exact .pure _
  | .text value, _, .text => by
    rw [lower]
    exact tightens_string value
  | .reference name, _, .reference => by
    rw [lower]
    exact tightens_readName name
  | .arith op l r, _, .arith hl hr => by
    rw [lower, lower]
    exact (hl.lower l).bind fun _ => (hr.lower r).bind fun _ => tightens_build _
  | .compare cond l r, _, .compare hl hr => by
    rw [lower, lower]
    exact (hl.lower l).bind fun _ => (hr.lower r).bind fun _ => tightens_build _
  | .declare name ty f, _, .declare hf => by
    rw [lower, lower]
    exact (hf.lower f).bind fun value => (tightens_declareName name ty value).bind fun _ => .pure _
  | .assign name f, _, .assign hf => by
    rw [lower, lower]
    exact (hf.lower f).bind fun value => (tightens_assignName name value).bind fun _ => .pure _
  | .block f forms, _, .block hf hforms => by
    rw [lower, lower]
    exact .inScope <| (hf.lower f).bind fun _ => (hforms.lowerAll forms).bind fun _ => .pure _
  | .print f forms, _, .print hf hforms => by
    rw [lower, lower]
    exact tightens_requirePrint.bind fun _ => (hf.lower f).bind fun _ =>
      (hforms.lowerAll forms).bind fun _ => tightens_build _
  | .choose c y n, _, .choose hc hy hn => by
    rw [lower, lower]
    exact (hc.lower c).bind fun _ => (tightens_build _).bind fun _ => (hy.lower y).bind fun _ =>
      (tightens_build _).bind fun _ => (hn.lower n).bind fun _ => (tightens_build _).bind fun _ =>
        tightens_build _

theorem AllStricter.lowerAll : (forms : List Form) → {forms' : List Form} →
    AllStricter refused forms forms' → Tightens refused (lowerAll forms) (lowerAll forms')
  | [], _, .nil => by
    rw [Form.lowerAll]
    exact .pure _
  | f :: forms, _, .cons hf hforms => by
    rw [Form.lowerAll, Form.lowerAll]
    exact (hf.lower f).bind fun _ => (hforms.lowerAll forms).bind fun _ => .pure _

end

end Form

/-! ## Type names in a program -/

/-- Somewhere in the expression a variable is declared with the type name. -/
inductive Tree.Annotates (ty : String) : Expr → Prop
  | here {name : String} {init : Expr} :
      Annotates ty (.list [.symbol "var", .list [.symbol name, .symbol ty], init])
  | inside {items : List Expr} {e : Expr} : e ∈ items → Annotates ty e → Annotates ty (.list items)

/-- The type name does not denote a type. -/
def UnknownTy (ty : String) : Prop := ty ≠ "number" ∧ ty ≠ "string"

/-- Strict and lenient type names denote the same types; what denotes none, strict type names
refuse. -/
theorem resolveTy_strict (ty : String) :
    (∃ t, resolveTy true ty = .ok t ∧ resolveTy false ty = .ok t) ∨
      UnknownTy ty ∧ resolveTy true ty = .error (.unknownType ty) := by
  unfold resolveTy
  split
  · exact .inl ⟨_, rfl, rfl⟩
  · exact .inl ⟨_, rfl, rfl⟩
  · next hnumber hstring => exact .inr ⟨⟨hnumber, hstring⟩, rfl⟩

namespace Form

/-- Strictness of type names only matters to a target with an unknown one. -/
theorem declaredBy_strict (target : Expr) :
    declaredBy true target = declaredBy false target ∧
        (∀ ty, declaredBy true target ≠ .error (.unknownType ty)) ∨
      ∃ name ty, target = .list [.symbol name, .symbol ty] ∧ UnknownTy ty ∧
        declaredBy true target = .error (.unknownType ty) := by
  unfold declaredBy
  split
  · exact .inl ⟨rfl, by rintro ty ⟨⟩⟩
  · next name ty =>
    rcases resolveTy_strict ty with ⟨t, hstrict, hlenient⟩ | ⟨hunknown, hstrict⟩
    · rw [hstrict, hlenient]
      exact .inl ⟨rfl, by rintro ty ⟨⟩⟩
    · rw [hstrict]
      exact .inr ⟨name, ty, rfl, hunknown, rfl⟩
  · exact .inl ⟨rfl, by rintro ty ⟨⟩⟩
  · exact .inl ⟨rfl, by rintro ty ⟨⟩⟩
  · exact .inl ⟨rfl, by rintro ty ⟨⟩⟩

variable {refused : String → Prop}

theorem Stricter.wrongArity (tag : String) (expected : Arity) (operands : List Expr) :
    Stricter refused (Form.wrongArity tag expected operands)
      (Form.wrongArity tag expected operands) :=
  .malformed (by rintro ty ⟨⟩)

theorem AllStricter.first {e : Expr} {es : List Expr}
    (h : AllStricter refused (ofExprs true (e :: es)) (ofExprs false (e :: es))) :
    Stricter refused (ofExpr true e) (ofExpr false e) ∧
      AllStricter refused (ofExprs true es) (ofExprs false es) := by
  rw [ofExprs, ofExprs] at h
  cases h with
  | cons he hes => exact ⟨he, hes⟩

/-- A declaration is stricter if its initial value is, and its target may be refused. -/
theorem Stricter.ofDeclaration {target init : Expr}
    (hinit : Stricter refused (ofExpr true init) (ofExpr false init))
    (htarget : ∀ name ty, target = .list [.symbol name, .symbol ty] → UnknownTy ty →
      refused ty) :
    Stricter refused (ofExpr true (.list [.symbol "var", target, init]))
      (ofExpr false (.list [.symbol "var", target, init])) := by
  unfold ofExpr
  rcases declaredBy_strict target with ⟨hsame, hknown⟩ | ⟨name, ty, rfl, hty, hstrict⟩
  · rw [hsame] at hknown
    simp only [Keyword.ofTag?, hsame]
    cases hdeclared : declaredBy false target with
    | error fault =>
      refine .malformed fun ty he => hknown ty ?_
      rw [hdeclared, he]
    | ok declared => exact .declare hinit
  · simp only [Keyword.ofTag?, hstrict]
    exact .refuse (htarget name ty rfl hty)

/-- The form of a list is stricter if those of the operands are, and the target of a declaration
may be refused. -/
theorem Stricter.list (tag : String) {operands : List Expr}
    (h : AllStricter refused (ofExprs true operands) (ofExprs false operands))
    (htarget : ∀ name ty init, tag = "var" → operands = [.list [.symbol name, .symbol ty], init] →
      UnknownTy ty → refused ty) :
    Stricter refused (ofExpr true (.list (.symbol tag :: operands)))
      (ofExpr false (.list (.symbol tag :: operands))) := by
  unfold ofExpr
  cases hk : Keyword.ofTag? tag with
  | none => exact .malformed (by rintro ty ⟨⟩)
  | some k =>
    obtain rfl := Keyword.eq_tag hk
    -- With other numbers of operands the form is malformed, strict or not.
    cases k with
    | arith op =>
      rcases operands with _ | ⟨left, _ | ⟨right, _ | _⟩⟩
      · exact .wrongArity ..
      · exact .wrongArity ..
      · exact .arith h.first.1 h.first.2.first.1
      · exact .wrongArity ..
    | compare cond =>
      rcases operands with _ | ⟨left, _ | ⟨right, _ | _⟩⟩
      · exact .wrongArity ..
      · exact .wrongArity ..
      · exact .compare h.first.1 h.first.2.first.1
      · exact .wrongArity ..
    | declare =>
      rcases operands with _ | ⟨target, _ | ⟨init, _ | _⟩⟩
      · exact .wrongArity ..
      · exact .wrongArity ..
      · exact .ofDeclaration h.first.2.first.1 fun name ty he =>
          htarget name ty init rfl (by rw [he])
      · exact .wrongArity ..
    | assign =>
      rcases operands with _ | ⟨target, _ | ⟨value, _ | _⟩⟩
      · exact .wrongArity ..
      · cases target <;> exact .wrongArity ..
      · cases target with
        | symbol name => exact .assign h.first.2.first.1
        | number | text | list => exact .malformed (by rintro ty ⟨⟩)
      · cases target <;> exact .wrongArity ..
    | block =>
      rcases operands with _ | ⟨first, rest⟩
      · exact .wrongArity ..
      · exact .block h.first.1 h.first.2
    | print =>
      rcases operands with _ | ⟨template, args⟩
      · exact .wrongArity ..
      · exact .print h.first.1 h.first.2
    | choose =>
      rcases operands with _ | ⟨condition, _ | ⟨yes, _ | ⟨no, _ | _⟩⟩⟩
      · exact .wrongArity ..
      · exact .wrongArity ..
      · exact .wrongArity ..
      · exact .choose h.first.1 h.first.2.first.1 h.first.2.first.2.first.1
      · exact .wrongArity ..

theorem Stricter.ofNumber (n : Int64) :
    Stricter refused (Form.ofNumber n) (Form.ofNumber n) := by
  unfold Form.ofNumber
  dsimp only
  split
  · exact .number
  · exact .malformed (by rintro ty ⟨⟩)

theorem Stricter.ofSymbol (name : String) :
    Stricter refused (Form.ofSymbol name) (Form.ofSymbol name) := by
  unfold Form.ofSymbol
  split
  · exact .truth
  · exact .truth
  · exact .reference

mutual

/-- **Strict type names refuse some declarations and change nothing else.** -/
theorem ofExpr_stricter : (e : Expr) → (∀ ty, e.Annotates ty → UnknownTy ty → refused ty) →
    Stricter refused (ofExpr true e) (ofExpr false e)
  | .number n, _ => by
    rw [ofExpr, ofExpr]
    exact .ofNumber n
  | .text raw, _ => by
    rw [ofExpr, ofExpr]
    exact .text
  | .symbol name, _ => by
    rw [ofExpr, ofExpr]
    exact .ofSymbol name
  | .list [], _ => by
    rw [ofExpr, ofExpr]
    exact .malformed (by rintro ty ⟨⟩)
  | .list (.symbol tag :: operands), h => by
    refine .list tag (ofExprs_stricter operands fun e he ty hty => ?_) ?_
    · exact h ty (.inside (List.mem_cons_of_mem _ he) hty)
    · rintro name ty init rfl rfl hunknown
      exact h ty .here hunknown
  | .list (.number n :: operands), _ => by
    simp only [ofExpr]
    exact .malformed (by rintro ty ⟨⟩)
  | .list (.text raw :: operands), _ => by
    simp only [ofExpr]
    exact .malformed (by rintro ty ⟨⟩)
  | .list (.list items :: operands), _ => by
    simp only [ofExpr]
    exact .malformed (by rintro ty ⟨⟩)

theorem ofExprs_stricter : (es : List Expr) →
    (∀ e ∈ es, ∀ ty, e.Annotates ty → UnknownTy ty → refused ty) →
    AllStricter refused (ofExprs true es) (ofExprs false es)
  | [], _ => by
    rw [ofExprs, ofExprs]
    exact .nil
  | e :: rest, h => by
    rw [ofExprs, ofExprs]
    obtain ⟨he, hrest⟩ := List.forall_mem_cons.1 h
    exact .cons (ofExpr_stricter e he) (ofExprs_stricter rest hrest)

end

end Form

/-! ## Whole programs -/

/-- Whether type names are strict matters only to the form of the program. -/
theorem compileExpr_strict_eq {options : Options} {program : Expr} {prepared : Module × Scopes}
    (h : prepare options = .ok prepared) {strict : Bool} :
    compileExpr { options with strict } program =
      match lowerProgram (.ofExpr strict program) (options.start prepared) with
      | (.error e, _) => .error e
      | (.ok (), s) => (finishModule s).mapError .ir :=
  compileExpr_eq h

/-- The compilations with strict and lenient type names come to the same and do not complain about
a type, or the strict one complains about a type that the program names and that is unknown. -/
theorem compileExpr_strict_cases (options : Options) (program : Expr) :
    compileExpr { options with strict := true } program =
        compileExpr { options with strict := false } program ∧
      (∀ ty, compileExpr { options with strict := true } program ≠
        .error (.malformed (.unknownType ty))) ∨
    ∃ ty, (program.Annotates ty ∧ UnknownTy ty) ∧
      compileExpr { options with strict := true } program =
        .error (.malformed (.unknownType ty)) := by
  cases hprepare : prepare options with
  | error e =>
    have hfails (strict : Bool) :
        compileExpr { options with strict } program = .error (.ir e) := by
      unfold compileExpr
      rw [show prepare { options with strict } = .error e from hprepare]
      rfl
    rw [hfails, hfails]
    exact .inl ⟨rfl, by rintro ty ⟨⟩⟩
  | ok prepared =>
    have hlower : Tightens (fun ty => program.Annotates ty ∧ UnknownTy ty)
        (lowerProgram (.ofExpr true program)) (lowerProgram (.ofExpr false program)) :=
      (Form.ofExpr_stricter program fun ty => .intro).lower.bind fun _ => tightens_build _
    rw [compileExpr_strict_eq hprepare, compileExpr_strict_eq hprepare]
    rcases hlower (options.start prepared) with ⟨hsame, hknown⟩ | ⟨ty, hty, hrefused⟩
    · rw [hsame] at hknown ⊢
      refine .inl ⟨rfl, fun ty => ?_⟩
      rcases hrun : lowerProgram (.ofExpr false program) (options.start prepared) with ⟨e | ⟨⟩, s⟩
      · rw [hrun] at hknown
        rintro ⟨⟩
        exact hknown ty rfl
      · cases hfinish : finishModule s <;> simp [hfinish, Except.mapError]
    · refine .inr ⟨ty, hty, ?_⟩
      rcases hrun : lowerProgram (.ofExpr true program) (options.start prepared) with ⟨result, s⟩
      rw [hrun] at hrefused
      obtain rfl : result = _ := hrefused
      rfl

/-- **Strict type names only reject.** What compiles with them compiles to the same module without
them, and what they are not the reason for fails alike without them. They are the reason only for
complaints about a type that the program declares a variable with and that is unknown; and what
compiles without them compiles with them too unless they are. -/
theorem compileExpr_strict (options : Options) (program : Expr) :
    let strict := compileExpr { options with strict := true } program
    let lenient := compileExpr { options with strict := false } program
    (∀ m, strict = .ok m → lenient = .ok m) ∧
    (∀ e, strict = .error e → (∀ ty, e ≠ .malformed (.unknownType ty)) → lenient = .error e) ∧
    (∀ ty, strict = .error (.malformed (.unknownType ty)) →
      program.Annotates ty ∧ ty ≠ "number" ∧ ty ≠ "string") ∧
    ∀ m, lenient = .ok m →
      strict = .ok m ∨ ∃ ty, strict = .error (.malformed (.unknownType ty)) := by
  intro strict lenient
  rcases compileExpr_strict_cases options program with ⟨hsame, hknown⟩ | ⟨ty, hty, hrefused⟩
  · exact ⟨fun m h => hsame.symm.trans h, fun e h _ => hsame.symm.trans h,
      fun ty h => absurd h (hknown ty), fun m h => .inl (hsame.trans h)⟩
  · have hstrict : strict = .error (.malformed (.unknownType ty)) := hrefused
    refine ⟨fun m h => ?_, fun e h he => ?_, fun ty' h => ?_, fun m _ => .inr ⟨ty, hstrict⟩⟩
    · rw [hstrict] at h
      cases h
    · rw [hstrict] at h
      cases h
      exact absurd rfl (he ty)
    · rw [hstrict] at h
      cases h
      exact hty

/-- `(begin (var (x float) 1) x)` -/
def floatVariable : Expr :=
  .list [.symbol "begin",
    .list [.symbol "var", .list [.symbol "x", .symbol "float"], .number 1], .symbol "x"]

/-- A type name that is unknown is taken for the default type or rejected. -/
theorem compileExpr_strict_floatVariable :
    compileExpr { Options.standard with strict := true } floatVariable =
        .error (.malformed (.unknownType "float")) ∧
      floatVariable.Annotates "float" ∧ "float" ≠ "number" ∧ "float" ≠ "string" := by
  have hstrict : compileExpr { Options.standard with strict := true } floatVariable =
      .error (.malformed (.unknownType "float")) := rfl
  exact ⟨hstrict, (compileExpr_strict .standard floatVariable).2.2.1 "float" hstrict⟩

end SexprSsa
