/-
SexprSsa.Proofs.Dominance — definitions come before uses.

The check of functions only asks whether a value is defined somewhere. Compiled
functions are in better order: whatever the outcomes of branches, every value
is computed on the way to its use, by the one instruction that computes it, and
a phi has an operand for the block that control comes from.

Main statement: `compileExpr_definedBeforeUse`, on the paths of compiled functions
and on the faults that their runs are thereby spared.
-/
import SexprSsa.Proofs.Runs

namespace SexprSsa

open Machine Direct

/-! ## Paths through a body -/

/-- Whatever the outcomes of branches, values are computed before they are used. -/
structure Flow.DefinedBeforeUse (g : Flow) : Prop where
  /-- A value has one instruction that computes it. -/
  unique : ∀ {v : ValueId} {p q : BlockId} {pre post pre' post' : List Instr} {i j : Instr},
    g.code p = pre ++ i :: post → g.code q = pre' ++ j :: post' →
      i.result? = some v → j.result? = some v → p = q ∧ pre = pre'
  /-- What an instruction reads is computed in a block that control came through, or earlier in
  the same block. -/
  operands : ∀ {passed : List BlockId} {q : BlockId} {pre post : List Instr} {i : Instr}
    {v : ValueId}, g.Path passed q → g.code q = pre ++ i :: post → i.isPhi = false →
      .temp v ∈ i.operands → v ∈ g.computed passed ++ results pre
  exits : ∀ {passed : List BlockId} {q : BlockId} {v : ValueId}, g.Path passed q →
    .temp v ∈ (g.exit q).operands → v ∈ g.computed passed ++ results (g.code q)
  /-- A phi has an operand for the block that control came from, and what it reads for that block
  is computed by the end of the block. -/
  phis : ∀ {passed : List BlockId} {q : BlockId} {pre post : List Instr} {r : ValueId} {ty : Ty}
    {incoming : List (Operand × BlockId)}, g.Path passed q →
      g.code q = pre ++ .phi r ty incoming :: post →
      ∃ p earlier, passed = p :: earlier ∧ p ∈ incoming.map Prod.snd ∧
        ∀ v, (.temp v, p) ∈ incoming → v ∈ g.computed passed

/-- In a row that computes no value twice, a value is computed at one place. -/
theorem split_unique {code pre post pre' post' : List Instr} {i j : Instr} {v : ValueId}
    (hnodup : (results code).Nodup) (h : code = pre ++ i :: post) (h' : code = pre' ++ j :: post')
    (hi : i.result? = some v) (hj : j.result? = some v) : pre = pre' := by
  have hapart {pre post : List Instr} {i : Instr} (h : code = pre ++ i :: post)
      (hi : i.result? = some v) : v ∉ results pre ∧ v ∉ results post := by
    have hrow : results code = results pre ++ v :: results post := by
      rw [h, results_append]
      simp [results, hi]
    rw [hrow, List.nodup_middle, List.nodup_cons, List.mem_append, not_or] at hnodup
    exact hnodup.1
  rw [h] at h'
  rcases List.append_eq_append_iff.1 h' with ⟨more, rfl, hrest⟩ | ⟨more, rfl, hrest⟩
  · cases more with
    | nil => simp
    | cons k more =>
      obtain ⟨rfl, -⟩ := List.cons.inj hrest
      have hv : v ∈ results (pre ++ i :: more) := mem_results.2 ⟨i, by simp, hi⟩
      exact absurd hv (hapart (h.trans h') hj).1
  · cases more with
    | nil => simp
    | cons k more =>
      obtain ⟨rfl, -⟩ := List.cons.inj hrest
      have hv : v ∈ results (pre' ++ j :: more) := mem_results.2 ⟨j, by simp, hj⟩
      exact absurd hv (hapart h hi).1

/-- Paths follow the exits of blocks, whatever the blocks run. -/
theorem Flow.Path.of_exits {g g' : Flow} {passed : List BlockId} {q : BlockId}
    (h : g.Path passed q) (hentry : g'.entry = g.entry) (hexit : g'.exit = g.exit) :
    g'.Path passed q := by
  induction h with
  | start => exact hentry ▸ .start
  | step _ hedge ih =>
    refine ih.step ?_
    unfold Flow.Edge
    rw [hexit]
    exact hedge

namespace Builder

variable {m : Module} {b : Builder}

theorem Shaped.computed_eq (h : b.Shaped) (passed : List BlockId) :
    b.body.flow.computed passed = b.flow.computed passed := by
  unfold Flow.computed
  exact congrArg (passed.flatMap ·) (funext h.results_code)

/-- What is available in the graph is computed on every path through the body. -/
theorem Shaped.mem_computed (h : b.Shaped) {passed : List BlockId} {q : BlockId} {v : ValueId}
    (hpath : b.body.flow.Path passed q) (hv : b.flow.Available q v) :
    v ∈ b.body.flow.computed passed := by
  rw [h.computed_eq]
  exact hv passed (hpath.of_exits rfl rfl)

/-- In a finished and sound draft, values are computed before they are used. -/
theorem Finished.definedBeforeUse (h : b.Finished m) : b.body.flow.DefinedBeforeUse where
  unique {v p q pre post pre' post' i j} hp hq hi hj := by
    have hmem {q : BlockId} {pre post : List Instr} {i : Instr}
        (hq : b.body.code q = pre ++ i :: post) (hi : i.result? = some v) :
        v ∈ results (b.flow.code q) := by
      rw [← h.results_code]
      exact mem_results.2 ⟨i, by simp [hq], hi⟩
    obtain rfl := h.sound.ssa.apart (hmem hp hi) (hmem hq hj)
    have hnodup : (results (b.body.code p)).Nodup := by
      rw [h.results_code]
      exact h.sound.ssa.nodup p
    exact ⟨rfl, split_unique hnodup hp hq hi hj⟩
  operands {passed q pre post i v} hpath hcode hphi hv := by
    rcases h.split hcode with ⟨-, hnone, -⟩ | ⟨pre', hcode', hresults, -⟩
    · rw [hnone] at hv
      cases hv
    · rw [List.mem_append, hresults]
      exact ((h.sound.ssa.fits hcode').uses hphi v hv).symm.imp_left (h.mem_computed hpath)
  exits {passed q v} hpath hv := by
    rw [List.mem_append]
    change _ ∨ v ∈ results (b.body.code q)
    rw [h.results_code]
    exact (h.sound.ssa.exits q v hv).symm.imp_left (h.mem_computed hpath)
  phis {passed q pre post r ty incoming} hpath hcode := by
    rcases h.split hcode with ⟨halloca, -, -⟩ | ⟨pre', hcode', -, -⟩
    · cases halloca
    · have hfits := h.sound.ssa.fits hcode'
      cases hpath with
      | start => exact absurd rfl (hfits.place rfl).1
      | @step earlier p _ hpath hedge =>
        refine ⟨p, earlier, rfl, (hfits.sources r ty incoming rfl p).2 hedge, fun v hv => ?_⟩
        change v ∈ results (b.body.code p) ++ b.body.flow.computed earlier
        rw [List.mem_append, h.results_code]
        exact (hfits.incoming r ty incoming rfl v p hv).imp_right (h.mem_computed hpath)

end Builder

/-! ## Faults -/

/-- Whether a fault comes from a function that is not in order: a value is missing, a phi has no
operand, or control has nowhere to go. -/
def Machine.Fault.isDisorder : Fault → Bool
  | .unevaluated _ | .noPredecessor _ | .noIncoming _ _ | .missingBlock _ | .unterminated _ => true
  | _ => false

/-- The evaluator has no reason to fail in this way. -/
theorem Direct.Failure.Explains.not_disorder {e : Failure} {fault : Fault}
    (h : e.Explains fault) : fault.isDisorder = false := by
  unfold Failure.Explains at h
  split at h <;> first | rfl | exact h.elim

/-- Whatever function of a compiled module is run, it does not fail in this way. -/
theorem Compiled.not_disorder {options : Options} {program : Expr} {m : Module}
    {prepared : Module × Scopes} {v : Operand} {t : LowerState}
    (h : Compiled options program m prepared v t) {name : String} {limit : Nat} {fault : Fault}
    (hrun : run m limit name = .error fault) : fault.isDisorder = false := by
  by_cases hentry : name = options.entry
  · subst hentry
    rcases h.run_fault hrun with rfl | ⟨e, -, hfault⟩
    · rfl
    · exact Failure.Explains.not_disorder hfault
  · by_cases hprint : name = printName
    · subst hprint
      have hinvoke : invoke m printName [] = .error (.wrongArity printName 0) := by
        simp [invoke, h.func?_print, Func.declared, Signature.accepts, printSignature]
      unfold run at hrun
      rw [hinvoke] at hrun
      cases hrun
      rfl
    · have hinvoke : invoke m name [] = .error (.functionNotFound name) := by
        simp only [invoke, h.func?_eq_none hentry hprint]
      unfold run at hrun
      rw [hinvoke] at hrun
      cases hrun
      rfl

/-- In the function that a program is compiled to, values are computed before they are used on
every path, and no run of the module fails for lack of a value, an operand of a phi or a block. -/
theorem compileExpr_definedBeforeUse {options : Options} {program : Expr} {m : Module}
    (h : compileExpr options program = .ok m) :
    (∃ body, m.func? options.entry = some ⟨options.signature, some body⟩ ∧
      body.flow.DefinedBeforeUse) ∧
    ∀ name limit fault, run m limit name = .error fault → fault.isDisorder = false := by
  obtain ⟨prepared, v, t, hc⟩ := compileExpr_compiled h
  exact ⟨⟨t.returned.builder.body, hc.func?_entry, hc.finished.definedBeforeUse⟩,
    fun _ _ _ hrun => hc.not_disorder hrun⟩

/-- `(printf "%d" (if (== 1 2) (+ 1 2) 3))` -/
def joinedPrint : Expr :=
  .list [.symbol "printf", .text "%d",
    .list [.symbol "if", .list [.symbol "==", .number 1, .number 2],
      .list [.symbol "+", .number 1, .number 2],
      .number 3]]

theorem compileExpr_definedBeforeUse_joinedPrint :
    ∃ m, compileExpr .standard joinedPrint = .ok m ∧
      (∃ body, m.func? "main" = some ⟨Options.standard.signature, some body⟩ ∧
        body.flow.DefinedBeforeUse) ∧
      ∀ name limit fault, run m limit name = .error fault → fault.isDisorder = false := by
  obtain ⟨m, hm⟩ := exists_of_isOk (x := compileExpr .standard joinedPrint) (by decide +kernel)
  exact ⟨m, hm, compileExpr_definedBeforeUse hm⟩

end SexprSsa
