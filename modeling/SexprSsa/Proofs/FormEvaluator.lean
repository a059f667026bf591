/-
SexprSsa.Proofs.FormEvaluator — the direct evaluator on forms.

Lowering works on the form of an expression, and so does this evaluator. It
follows the evaluator of expressions rule by rule, with operators and
declarations already told apart.

Main statements: `eval_eq` and `pass_eq`, on well-formed expressions the two
evaluators agree.
-/
import SexprSsa.Proofs.Evaluator
import SexprSsa.Proofs.WellFormed

namespace SexprSsa.Direct

/-! ## The evaluator -/

/-- The result of an arithmetic operation. -/
def calculate (op : ArithOp) (a b : Int32) : Except Failure Datum :=
  match op.eval? a b with
  | some value => .ok (.int value)
  | none => .error .divisionByZero

mutual

/-- What is left of a form that is passed over. -/
def passForm : Form → World → World
  | .arith _ left right, w | .compare _ left right, w => passForm right (passForm left w)
  | .declare name _ init, w => (passForm init w).reserve name
  | .assign _ value, w => passForm value w
  | .block first rest, w => { passForms rest (passForm first w) with names := w.names }
  | .print template args, w => passForms args (passForm template w)
  | .choose condition yes no, w => passForm no (passForm yes (passForm condition w))
  | .number _, w | .truth _, w | .text _, w | .reference _, w | .malformed _, w => w

/-- What is left of forms that are passed over. -/
def passForms : List Form → World → World
  | [], w => w
  | f :: rest, w => passForms rest (passForm f w)

end

/-- Variables have the values that they had, and nothing has been printed. -/
structure Kept (w w' : World) : Prop where
  cells : w'.cells = w.cells
  globals : w'.globals = w.globals
  output : w'.output = w.output

theorem Kept.refl (w : World) : Kept w w := ⟨rfl, rfl, rfl⟩

theorem Kept.trans {w w' w'' : World} (h : Kept w w') (h' : Kept w' w'') : Kept w w'' :=
  ⟨h'.cells.trans h.cells, h'.globals.trans h.globals, h'.output.trans h.output⟩

mutual

/-- Passing over a form changes names only. -/
theorem passForm_kept : (f : Form) → (w : World) → Kept w (passForm f w)
  | .number _, w | .truth _, w | .text _, w | .reference _, w | .malformed _, w => .refl w
  | .arith _ left right, w | .compare _ left right, w =>
    (passForm_kept left w).trans (passForm_kept right _)
  | .declare _ _ init, w => (passForm_kept init w).trans ⟨rfl, rfl, rfl⟩
  | .assign _ value, w => passForm_kept value w
  | .block first rest, w =>
    ((passForm_kept first w).trans (passForms_kept rest _)).trans ⟨rfl, rfl, rfl⟩
  | .print template args, w => (passForm_kept template w).trans (passForms_kept args _)
  | .choose condition yes no, w =>
    ((passForm_kept condition w).trans (passForm_kept yes _)).trans (passForm_kept no _)

theorem passForms_kept : (forms : List Form) → (w : World) → Kept w (passForms forms w)
  | [], w => .refl w
  | f :: rest, w => (passForm_kept f w).trans (passForms_kept rest _)

end

/-- The world after a branch that is not taken. -/
def skipForm : Scoping → Form → World → World
  | .lexical, f, w => passForm f w
  | .dynamic, _, w => w

mutual

/-- Evaluates a form. -/
def evalForm (σ : Scoping) : Form → World → Except Failure (Datum × World)
  | .number n, w => .ok (.int n, w)
  | .truth b, w => .ok (.bool b, w)
  | .text t, w => .ok (.text t, w)
  | .reference name, w => do return (← w.value name, w)
  | .arith op left right, w => do
      let (a, w) ← evalForm σ left w
      let (b, w) ← evalForm σ right w
      return (← calculate op (← a.number) (← b.number), w)
  | .compare cond left right, w => do
      let (a, w) ← evalForm σ left w
      let (b, w) ← evalForm σ right w
      return (.bool (cond.holds (← a.number).toUInt32 (← b.number).toUInt32), w)
  | .declare name _ init, w => do
      let (d, w) ← evalForm σ init w
      return (d, ← w.declare name d)
  | .assign name value, w => do
      let (d, w) ← evalForm σ value w
      return (d, ← w.assign name d)
  | .block first rest, w => do
      let (d, w') ← evalForm σ first w
      let (ds, w') ← evalForms σ rest w'
      return (ds.getLastD d, { w' with names := w.names })
  | .print template args, w => do
      let (t, w) ← evalForm σ template w
      let (ds, w) ← evalForms σ args w
      let text ← printed t ds
      return (.int (wrap text.utf8ByteSize), { w with output := w.output ++ text })
  | .choose condition yes no, w => do
      let (d, w) ← evalForm σ condition w
      if ← d.truth then
        let (d, w) ← evalForm σ yes w
        return (← d.use, skipForm σ no w)
      else
        let (d, w) ← evalForm σ no (skipForm σ yes w)
        return (← d.use, w)
  | .malformed _, _ => .error .malformed

/-- Evaluates forms from left to right. -/
def evalForms (σ : Scoping) : List Form → World → Except Failure (List Datum × World)
  | [], w => .ok ([], w)
  | f :: rest, w => do
      let (d, w) ← evalForm σ f w
      let (ds, w) ← evalForms σ rest w
      return (d :: ds, w)

end

/-! ## Operations -/

theorem operate_arith (op : ArithOp) (a b : Int32) : operate op.tag a b = calculate op a b := by
  cases op with
  | add => simp [operate, ArithOp.tag, calculate, ArithOp.eval?, wrap]
  | sub => simp [operate, ArithOp.tag, calculate, ArithOp.eval?, wrap]
  | mul => simp [operate, ArithOp.tag, calculate, ArithOp.eval?, wrap]
  | div =>
    have hzero : b.toInt = 0 ↔ b = 0 := by
      rw [← Int32.toInt_inj]
      rfl
    have hdiv : wrap (a.toInt.tdiv b.toInt) = a / b := by
      rw [← Int32.toInt_inj]
      simp [wrap, Int32.toInt_div]
    simp only [operate, ArithOp.tag, calculate, ArithOp.eval?, hzero, hdiv]
    by_cases hb : b = 0 <;> simp [hb]

theorem operate_compare (cond : Cond) (a b : Int32) :
    operate cond.tag a b = .ok (.bool (cond.holds a.toUInt32 b.toUInt32)) := by
  have hbool {p : Prop} [Decidable p] {x : Bool} (h : p ↔ x = true) :
      (Except.ok (.bool (decide p)) : Except Failure Datum) = .ok (.bool x) := by
    rw [Bool.eq_iff_iff.2 (decide_eq_true_iff.trans h)]
  cases cond with
  | eq => exact hbool (UInt32.toNat_inj.trans beq_iff_eq.symm)
  | ne => exact hbool ((not_congr UInt32.toNat_inj).trans bne_iff_ne.symm)
  | gt => exact hbool (UInt32.lt_iff_toNat_lt.symm.trans decide_eq_true_iff.symm)
  | ge => exact hbool (UInt32.le_iff_toNat_le.symm.trans decide_eq_true_iff.symm)
  | lt => exact hbool (UInt32.lt_iff_toNat_lt.symm.trans decide_eq_true_iff.symm)
  | le => exact hbool (UInt32.le_iff_toNat_le.symm.trans decide_eq_true_iff.symm)

/-! ## The evaluators agree -/

variable {strict : Bool}

theorem targetName?_eq {target : Expr} {name : String} {ty : Ty}
    (h : Form.declaredBy strict target = .ok (name, ty)) : targetName? target = some name := by
  unfold Form.declaredBy at h
  split at h
  · cases h
    rfl
  · next n t =>
    cases hty : resolveTy strict t with
    | error _ => rw [hty] at h; cases h
    | ok _ => rw [hty] at h; cases h; rfl
  · cases h
  · cases h
  · cases h

/-- Outside declarations and blocks, operands are passed over from left to right. -/
theorem pass_list {tag : String} (hvar : tag ≠ "var") (hbegin : tag ≠ "begin")
    (operands : List Expr) (w : World) :
    pass (.list (.symbol tag :: operands)) w = passAll operands w := by
  rw [pass]
  · exact fun _ _ _ => hvar
  · intro he
    exact hbegin he

theorem pass_symbol (name : String) (w : World) : pass (.symbol name) w = w := by
  simp [pass]

mutual

/-- Passing over an expression is passing over its form. -/
theorem pass_eq {e : Expr} : (f : Form) → HasForm strict e f → ∀ w, pass e w = passForm f w
  | .number _, h, w => by
    cases h
    simp only [pass, passForm]
  | .truth _, h, w => by
    cases h <;> exact pass_symbol _ w
  | .text _, h, w => by
    cases h
    simp only [pass, passForm]
  | .reference name, h, w => by
    cases h
    exact pass_symbol name w
  | .arith op l r, h, w => by
    cases h with
    | arith hleft hright =>
      rw [pass_list (by cases op <;> decide) (by cases op <;> decide)]
      simp only [passAll, passForm, pass_eq l hleft, pass_eq r hright]
  | .compare cond l r, h, w => by
    cases h with
    | compare hleft hright =>
      rw [pass_list (by cases cond <;> decide) (by cases cond <;> decide)]
      simp only [passAll, passForm, pass_eq l hleft, pass_eq r hright]
  | .declare name ty init, h, w => by
    cases h with
    | declare htarget hinit =>
      simp only [pass, passForm, targetName?_eq htarget, pass_eq init hinit]
  | .assign name value, h, w => by
    cases h with
    | assign hvalue =>
      rw [pass_list (by decide) (by decide)]
      simp only [passAll, passForm, pass_symbol, pass_eq value hvalue]
  | .block first rest, h, w => by
    cases h with
    | block hfirst hrest =>
      simp only [pass, passAll, passForm, pass_eq first hfirst, passAll_eq rest hrest]
  | .print template args, h, w => by
    cases h with
    | print htemplate hargs =>
      rw [pass_list (by decide) (by decide)]
      simp only [passAll, passForm, pass_eq template htemplate, passAll_eq args hargs]
  | .choose condition yes no, h, w => by
    cases h with
    | choose hcondition hyes hno =>
      rw [pass_list (by decide) (by decide)]
      simp only [passAll, passForm, pass_eq condition hcondition, pass_eq yes hyes, pass_eq no hno]
  | .malformed _, h, w => by cases h

theorem passAll_eq {es : List Expr} : (forms : List Form) → HaveForms strict es forms →
    ∀ w, passAll es w = passForms forms w
  | [], h, w => by
    cases h
    simp only [passAll, passForms]
  | f :: rest, h, w => by
    cases h with
    | cons hf hrest => simp only [passAll, passForms, pass_eq f hf, passAll_eq rest hrest]

end

theorem skip_eq (σ : Scoping) {e : Expr} {f : Form} (h : HasForm strict e f) (w : World) :
    skip σ e w = skipForm σ f w := by
  cases σ with
  | lexical => exact pass_eq f h w
  | dynamic => rfl

/-- An operation is evaluated by its symbol. -/
theorem eval_binary (σ : Scoping) {tag : String} (left right : Expr) (w : World)
    (h : tag ∉ ["var", "set", "begin", "printf"]) :
    eval σ (.list [.symbol tag, left, right]) w = do
      let (a, w) ← eval σ left w
      let (b, w) ← eval σ right w
      return (← operate tag (← a.number) (← b.number), w) := by
  simp only [List.mem_cons, List.not_mem_nil, or_false, not_or] at h
  obtain ⟨hvar, hset, hbegin, hprint⟩ := h
  rw [eval]
  · exact hvar
  · exact fun _ htag _ => hset htag
  · exact hbegin
  · exact hprint

mutual

/-- On well-formed expressions the evaluators agree. -/
theorem eval_eq (σ : Scoping) {e : Expr} : (f : Form) → HasForm strict e f →
    ∀ w, eval σ e w = evalForm σ f w
  | .number _, h, w => by
    cases h
    simp only [eval, evalForm, wrap]
  | .truth _, h, w => by
    cases h <;> simp only [eval, evalForm]
  | .text _, h, w => by
    cases h
    simp only [eval, evalForm]
  | .reference name, h, w => by
    cases h with
    | reference htrue hfalse =>
      rw [eval, evalForm]
      · exact htrue
      · exact hfalse
  | .arith op l r, h, w => by
    cases h with
    | arith hleft hright =>
      rw [eval_binary σ _ _ w (by cases op <;> decide)]
      simp only [evalForm, eval_eq σ l hleft, eval_eq σ r hright, operate_arith]
  | .compare cond l r, h, w => by
    cases h with
    | compare hleft hright =>
      rw [eval_binary σ _ _ w (by cases cond <;> decide)]
      simp only [evalForm, eval_eq σ l hleft, eval_eq σ r hright, operate_compare]
      rfl
  | .declare name ty init, h, w => by
    cases h with
    | declare htarget hinit =>
      simp only [eval, evalForm, targetName?_eq htarget, eval_eq σ init hinit]
  | .assign name value, h, w => by
    cases h with
    | assign hvalue => simp only [eval, evalForm, eval_eq σ value hvalue]
  | .block first rest, h, w => by
    cases h with
    | block hfirst hrest =>
      simp only [eval, evalForm, eval_eq σ first hfirst, evalAll_eq σ rest hrest]
  | .print template args, h, w => by
    cases h with
    | print htemplate hargs =>
      simp only [eval, evalForm, eval_eq σ template htemplate, evalAll_eq σ args hargs]
  | .choose condition yes no, h, w => by
    cases h with
    | choose hcondition hyes hno =>
      simp only [eval, evalForm, eval_eq σ condition hcondition, eval_eq σ yes hyes,
        eval_eq σ no hno, skip_eq σ hyes, skip_eq σ hno]
  | .malformed _, h, w => by cases h

theorem evalAll_eq (σ : Scoping) {es : List Expr} : (forms : List Form) → HaveForms strict es forms →
    ∀ w, evalAll σ es w = evalForms σ forms w
  | [], h, w => by
    cases h
    simp only [evalAll, evalForms]
  | f :: rest, h, w => by
    cases h with
    | cons hf hrest =>
      simp only [evalAll, evalForms, eval_eq σ f hf, evalAll_eq σ rest hrest]

end

end SexprSsa.Direct
