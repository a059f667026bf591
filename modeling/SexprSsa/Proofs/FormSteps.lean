/-
SexprSsa.Proofs.FormSteps — what a lowering that succeeds has done.

`Lowered` describes lowering in states that are sound, where the builder refuses
nothing. Here nothing is known of the state: the function under construction may
have lost its blocks, and names may refer to anything. All that is known is that
lowering has succeeded, so each of its steps has, one after the other
(`Form.Steps`).

Main statement: `Form.steps`. A proof about lowerings that succeed has a case for
each form, and in it the steps of that form.
-/
import SexprSsa.Proofs.Forms

namespace SexprSsa

namespace Lower

variable {s s' : LowerState}

theorem of_resolve {name : String} {binding : Binding} (h : resolve name s = (.ok binding, s')) :
    s' = s := by
  unfold resolve at h
  split at h
  · cases h
    rfl
  · cases h

theorem of_requirePrint (h : requirePrint s = (.ok (), s')) : s' = s := by
  unfold requirePrint at h
  split at h
  · cases h
    rfl
  · cases h

/-- What is done in a scope of its own leaves the scopes around it. -/
theorem of_inScope {α : Type} {action : Lower α} {a : α} (h : inScope action s = (.ok a, s')) :
    ∃ s₁, action s.inner = (.ok a, s₁) ∧ s' = { s₁ with scopes := s.scopes } := by
  rcases haction : action s.inner with ⟨result, s₁⟩
  simp only [inScope, show action { s with scopes := s.scopes.push } = _ from haction] at h
  obtain ⟨rfl, rfl⟩ := Prod.mk.inj h
  exact ⟨s₁, rfl, rfl⟩

end Lower

open Lower in
/-- The steps in which lowering a form has led from one state to another. -/
def Form.Steps (s : LowerState) (v : Operand) (s' : LowerState) : Form → Prop
  | .number value => v = .ofInt value ∧ s' = s
  | .truth value => v = .ofBool value ∧ s' = s
  | .text value => v = .str (s.module.addString value).1 ∧ s' = s.withString value
  | .reference name => readName name s = (.ok v, s')
  | .arith op left right => ∃ a s₁ b s₂, left.lower s = (.ok a, s₁) ∧
      right.lower s₁ = (.ok b, s₂) ∧ build (.arith op a b) s₂ = (.ok v, s')
  | .compare cond left right => ∃ a s₁ b s₂, left.lower s = (.ok a, s₁) ∧
      right.lower s₁ = (.ok b, s₂) ∧ build (.compare cond a b) s₂ = (.ok v, s')
  | .declare name ty init => ∃ s₁, init.lower s = (.ok v, s₁) ∧
      declareName name ty v s₁ = (.ok (), s')
  | .assign name value => ∃ s₁, value.lower s = (.ok v, s₁) ∧ assignName name v s₁ = (.ok (), s')
  | .block first rest => ∃ w s₁ ws s₂, first.lower s.inner = (.ok w, s₁) ∧
      Form.lowerAll rest s₁ = (.ok ws, s₂) ∧ v = ws.getLastD w ∧
      s' = { s₂ with scopes := s.scopes }
  | .print template args => ∃ w s₁ ws s₂, requirePrint s = (.ok (), s) ∧
      template.lower s = (.ok w, s₁) ∧ Form.lowerAll args s₁ = (.ok ws, s₂) ∧
      build (.call printName (w :: ws)) s₂ = (.ok v, s')
  | .choose condition yes no => ∃ c s₁ blocks s₂ y s₃ yesEnd s₄ n s₅ noEnd s₆,
      condition.lower s = (.ok c, s₁) ∧ build (fork c) s₁ = (.ok blocks, s₂) ∧
      yes.lower s₂ = (.ok y, s₃) ∧
      build (closeBranch blocks.join blocks.no) s₃ = (.ok yesEnd, s₄) ∧
      no.lower s₄ = (.ok n, s₅) ∧
      build (closeBranch blocks.join blocks.join) s₅ = (.ok noEnd, s₆) ∧
      build (merge [(y, yesEnd), (n, noEnd)]) s₆ = (.ok v, s')
  | .malformed _ => False

/-- **A lowering that succeeds has taken all its steps.** -/
theorem Form.steps {s s' : LowerState} {v : Operand} {f : Form} (h : f.lower s = (.ok v, s')) :
    f.Steps s v s' := by
  unfold Form.lower at h
  cases f with
  | number value =>
    cases h
    exact ⟨rfl, rfl⟩
  | truth value =>
    cases h
    exact ⟨rfl, rfl⟩
  | text value =>
    cases h
    exact ⟨rfl, rfl⟩
  | reference name => exact h
  | arith op left right =>
    obtain ⟨a, s₁, hleft, h⟩ := exists_of_bind_ok h
    obtain ⟨b, s₂, hright, h⟩ := exists_of_bind_ok h
    exact ⟨a, s₁, b, s₂, hleft, hright, h⟩
  | compare cond left right =>
    obtain ⟨a, s₁, hleft, h⟩ := exists_of_bind_ok h
    obtain ⟨b, s₂, hright, h⟩ := exists_of_bind_ok h
    exact ⟨a, s₁, b, s₂, hleft, hright, h⟩
  | declare name ty init =>
    obtain ⟨w, s₁, hinit, h⟩ := exists_of_bind_ok h
    obtain ⟨_, s₂, hdeclare, h⟩ := exists_of_bind_ok h
    cases h
    exact ⟨s₁, hinit, hdeclare⟩
  | assign name value =>
    obtain ⟨w, s₁, hvalue, h⟩ := exists_of_bind_ok h
    obtain ⟨_, s₂, hassign, h⟩ := exists_of_bind_ok h
    cases h
    exact ⟨s₁, hvalue, hassign⟩
  | block first rest =>
    obtain ⟨t, hinner, hscopes⟩ := Lower.of_inScope h
    obtain ⟨w, s₁, hfirst, hinner⟩ := exists_of_bind_ok hinner
    obtain ⟨ws, s₂, hrest, hinner⟩ := exists_of_bind_ok hinner
    cases hinner
    exact ⟨w, s₁, ws, t, hfirst, hrest, rfl, hscopes⟩
  | print template args =>
    obtain ⟨_, s₀, hrequire, hprint⟩ := exists_of_bind_ok h
    obtain rfl := Lower.of_requirePrint hrequire
    obtain ⟨w, s₁, htemplate, hprint⟩ := exists_of_bind_ok hprint
    obtain ⟨ws, s₂, hargs, hcall⟩ := exists_of_bind_ok hprint
    exact ⟨w, s₁, ws, s₂, hrequire, htemplate, hargs, hcall⟩
  | choose condition yes no =>
    obtain ⟨c, s₁, hcondition, h⟩ := exists_of_bind_ok h
    obtain ⟨blocks, s₂, hfork, h⟩ := exists_of_bind_ok h
    obtain ⟨y, s₃, hyes, h⟩ := exists_of_bind_ok h
    obtain ⟨yesEnd, s₄, hyesEnd, h⟩ := exists_of_bind_ok h
    obtain ⟨n, s₅, hno, h⟩ := exists_of_bind_ok h
    obtain ⟨noEnd, s₆, hnoEnd, h⟩ := exists_of_bind_ok h
    exact ⟨c, s₁, blocks, s₂, y, s₃, yesEnd, s₄, n, s₅, noEnd, s₆, hcondition, hfork, hyes,
      hyesEnd, hno, hnoEnd, h⟩
  | malformed fault => cases h

/-- Forms are lowered from left to right. -/
theorem Form.steps_cons {s s' : LowerState} {vs : List Operand} {f : Form} {rest : List Form}
    (h : Form.lowerAll (f :: rest) s = (.ok vs, s')) :
    ∃ w s₁ ws, f.lower s = (.ok w, s₁) ∧ Form.lowerAll rest s₁ = (.ok ws, s') ∧ vs = w :: ws := by
  unfold Form.lowerAll at h
  obtain ⟨w, s₁, hf, h⟩ := exists_of_bind_ok h
  obtain ⟨ws, s₂, hrest, h⟩ := exists_of_bind_ok h
  cases h
  exact ⟨w, s₁, ws, hf, hrest, rfl⟩

end SexprSsa
