/-
SexprSsa.Proofs.Correctness — compiled programs do what the evaluator does.

A name is resolved where it stands in the text, whichever branches are taken.
So a declaration in a branch that is not taken still hides an outer variable of
its name, and what the name refers to then was never given a value. This is
the one point in which an evaluator that just skips such a branch differs.

Main statement: `compileExpr_runs`, a run of a compiled program agrees with the
evaluator that resolves names in the text.
-/
import SexprSsa.Proofs.Runs

namespace SexprSsa

open Machine Direct

/-- A run of the entry function whose limit is at least the size of the function agrees with the
evaluator: it prints the same and returns zero, or both fail. -/
def RunsAs (σ : Scoping) (options : Options) (program : Expr) (m : Module) : Prop :=
  ∃ body, m.func? options.entry = some ⟨options.signature, some body⟩ ∧
    ∀ limit, body.size ≤ limit →
      match eval σ program options.world with
      | .ok (_, w) => ∃ steps, run m limit options.entry = .ok ⟨some (.int 0), w.output, steps⟩
      | .error _ => ∃ fault, run m limit options.entry = .error fault

/-- The evaluator that resolves names in the text is right about every compiled program. -/
theorem compileExpr_runs {options : Options} {program : Expr} {m : Module}
    (h : compileExpr options program = .ok m) : RunsAs .lexical options program m := by
  obtain ⟨prepared, v, t, hc⟩ := compileExpr_compiled h
  refine ⟨t.returned.builder.body, hc.func?_entry, fun limit hlimit => ?_⟩
  cases heval : eval .lexical program options.world with
  | ok p => exact hc.run_halts hlimit heval
  | error e =>
    cases hrun : run m limit options.entry with
    | error fault => exact ⟨fault, rfl⟩
    | ok out =>
      have hok := hc.eval_of_run hrun
      rw [heval] at hok
      cases hok

/-- `(begin (var x 3) (if (> x 2) (printf "%d" x) (printf "small")))` -/
def conditionalPrint : Expr :=
  .list [.symbol "begin",
    .list [.symbol "var", .symbol "x", .number 3],
    .list [.symbol "if", .list [.symbol ">", .symbol "x", .number 2],
      .list [.symbol "printf", .text "%d", .symbol "x"],
      .list [.symbol "printf", .text "small"]]]

theorem compileExpr_runs_conditionalPrint :
    ∃ m, compileExpr .standard conditionalPrint = .ok m ∧
      RunsAs .lexical .standard conditionalPrint m := by
  obtain ⟨m, hm⟩ := exists_of_isOk (x := compileExpr .standard conditionalPrint) (by decide +kernel)
  exact ⟨m, hm, compileExpr_runs hm⟩

/-- `(begin (var x 1) (if (== 1 2) (var x 2) 0) (printf "%d" x))` -/
def hiddenByBranch : Expr :=
  .list [.symbol "begin",
    .list [.symbol "var", .symbol "x", .number 1],
    .list [.symbol "if", .list [.symbol "==", .number 1, .number 2],
      .list [.symbol "var", .symbol "x", .number 2],
      .number 0],
    .list [.symbol "printf", .text "%d", .symbol "x"]]

/-- An evaluator that just skips a branch prints the outer variable, and every run fails. -/
theorem not_runsAs_dynamic :
    ∃ m, compileExpr .standard hiddenByBranch = .ok m ∧
      (eval .dynamic hiddenByBranch Options.standard.world).toOption.map (·.2.output) = some "1" ∧
      ¬ RunsAs .dynamic .standard hiddenByBranch m := by
  obtain ⟨m, hm⟩ := exists_of_isOk (x := compileExpr .standard hiddenByBranch) (by decide +kernel)
  refine ⟨m, hm, by decide +kernel, ?_⟩
  rintro ⟨body, -, hruns⟩
  obtain ⟨p, hdynamic⟩ := exists_of_isOk (x := eval .dynamic hiddenByBranch Options.standard.world)
    (by decide +kernel)
  have hrun := hruns body.size (Nat.le_refl _)
  rw [hdynamic] at hrun
  obtain ⟨steps, hrun⟩ := hrun
  obtain ⟨prepared, v, t, hc⟩ := compileExpr_compiled hm
  have hlexical : (eval .lexical hiddenByBranch Options.standard.world).isOk = false := by
    decide +kernel
  rw [hc.eval_of_run hrun] at hlexical
  cases hlexical

end SexprSsa
