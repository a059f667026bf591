/-
SexprSsa.Proofs.Runs — runs of compiled functions.

A run of a compiled function starts with the allocations of its slots, which do
nothing, and then follows the evaluator to the end of the program, where the
function returns zero. Whatever its limit, a run therefore fails for a reason
that the evaluator has too, or because the limit is reached.

Main statements: `Compiled.run_follows`, on runs with any limit, and
`Compiled.run_halts`, a limit of the size of the function is enough.
-/
import SexprSsa.Proofs.Acceptance
import SexprSsa.Proofs.SimulationForms

namespace SexprSsa

open Machine Direct

theorem exists_of_isOk {ε α : Type} {x : Except ε α} (h : x.isOk = true) : ∃ a, x = .ok a := by
  cases x with
  | ok a => exact ⟨a, rfl⟩
  | error e => cases h

/-- What a name refers to before the program has declared anything. -/
def Options.place? (options : Options) (name : String) : Option Place :=
  if name = options.entry then some .function
  else ((globalNames options.globals).idxOf? name).map .global

/-- The world in which a program starts. -/
def Options.world (options : Options) : World where
  names := options.place?
  cells _ := none
  next := 0
  globals i := (options.globals[i]?).elim (.int 0) fun g => .int g.value
  output := ""

/-- The number of instructions and blocks of a body. -/
def Body.size (body : Body) : Nat :=
  (body.blocks.values.map fun blk => blk.instrs.length).sum + body.blocks.size

theorem Body.work_le_size (body : Body) : body.work ≤ body.size := by
  unfold Body.work Body.size Table.size
  rw [show body.blocks.entries.length = body.blocks.values.length by simp [Table.values]]
  induction body.blocks.values with
  | nil => exact Nat.le_refl _
  | cons blk rest ih =>
    have hexit : blk.terminator.work ≤ 1 := by
      by_cases h : blk.terminator = .missing
      · rw [h]
        exact Nat.zero_le 1
      · exact Nat.le_of_eq (Terminator.work_eq_one h)
    simp only [List.map_cons, List.sum_cons, List.length_cons, Block.work]
    omega

/-- Allocations are run without an effect. -/
theorem steps_allocations (m : Module) (slots : List StackSlot) (code : List Instr) (c : Config) :
    Steps m slots.length (c.advance (slots.map StackSlot.allocation ++ code)) (c.advance code) := by
  induction slots with
  | nil => exact .refl
  | cons slot rest ih => exact .next rfl ih

namespace Compiled

variable {options : Options} {program : Expr} {m : Module} {prepared : Module × Scopes}
  {v : Operand} {t : LowerState}

/-! ## The compiled function -/

/-- The finished function in its module. -/
def target (_ : Compiled options program m prepared v t) : Target := ⟨m, t.returned.builder⟩

theorem reaches (h : Compiled options program m prepared v t) :
    (options.start prepared).Reaches [] t := (Form.reaches _ h.lowered h.ready.sound).1

theorem finished (h : Compiled options program m prepared v t) :
    t.returned.builder.Finished t.module := h.reaches.sound.finished

theorem signature (h : Compiled options program m prepared v t) :
    t.builder.signature = options.signature := h.reaches.builder.signature

theorem func?_entry (h : Compiled options program m prepared v t) :
    m.func? options.entry = some ⟨options.signature, some t.returned.builder.body⟩ := by
  have hname : t.builder.signature.name = options.entry := congrArg Signature.name h.signature
  rw [h.module, ← h.signature, ← hname]
  exact Table.find?_insert_self ..

theorem func?_print (h : Compiled options program m prepared v t) :
    m.func? printName = some (.declared printSignature) := by
  have hname : t.builder.signature.name = options.entry := congrArg Signature.name h.signature
  rw [h.module]
  change Table.find? (Table.insert _ _ _) printName = _
  rw [Table.find?_insert_of_ne _ _ (hname ▸ h.entry)]
  exact (h.reaches.sound.func?_eq printName).trans (if_pos rfl)

/-- The module has no other functions. -/
theorem func?_eq_none (h : Compiled options program m prepared v t) {name : String}
    (hentry : name ≠ options.entry) (hprint : name ≠ printName) : m.func? name = none := by
  have hname : t.builder.signature.name = options.entry := congrArg Signature.name h.signature
  rw [h.module]
  change Table.find? (Table.insert _ _ _) name = _
  rw [Table.find?_insert_of_ne _ _ (hname ▸ hentry.symm)]
  exact (h.reaches.sound.func?_eq name).trans (if_neg hprint.symm)

theorem valid (h : Compiled options program m prepared v t) : h.target.Valid :=
  ⟨h.finished.toShaped, h.func?_print⟩

theorem contains (h : Compiled options program m prepared v t) : h.target.Contains t where
  flow := by
    have hopen := h.reaches.sound.opened
    change t.builder.flow.Within (t.builder.conclude _).flow
    rw [hopen.flow_conclude]
    exact .close hopen.current_open _
  blocks := Nat.le_refl _
  globals := by
    change m.globals = _
    rw [h.module]
    rfl
  strings hc := by
    change m.string? _ = _
    rw [h.module]
    exact hc

/-! ## The start of a run -/

/-- The state of the machine after the allocations. -/
def begun (_ : Compiled options program m prepared v t) : Config :=
  .initial m
    { body := t.returned.builder.body
      block := t.returned.builder.body.entry
      code := t.returned.builder.flow.code t.returned.builder.body.entry
      exit := t.returned.builder.flow.exit t.returned.builder.body.entry
      cameFrom := none
      values := ∅
      slots := ∅ }

theorem run_eq (h : Compiled options program m prepared v t) (limit : Nat) :
    run m limit options.entry = resume m limit limit
      (h.begun.advance (t.returned.builder.body.code t.returned.builder.body.entry)) := by
  obtain ⟨blk, hblk⟩ := h.finished.exists_block (q := t.returned.builder.body.entry)
    (by rw [h.finished.entry]; exact h.finished.inhabited)
  have hinvoke : invoke m options.entry [] = .ok (.entered
      (h.begun.advance (t.returned.builder.body.code t.returned.builder.body.entry)).frame) := by
    have hexit : t.returned.builder.flow.exit t.returned.builder.body.entry = blk.terminator :=
      Body.exit_of_block hblk
    simp only [invoke, h.func?_entry, enterBlock, hblk, Config.advance, begun, Config.initial,
      Body.code_of_block hblk, hexit]
    rfl
  unfold run
  rw [hinvoke]
  rfl

theorem initialGlobals_eq (h : Compiled options program m prepared v t) :
    initialGlobals m = options.globals.map fun g => .int g.value := by
  obtain ⟨scopes, hprepared, -⟩ := h.ready.configured
  have hglobals : m.globals = prepared.1.globals :=
    (congrArg Module.globals h.module).trans h.reaches.module.globals
  have hinitial : prepared.1.globals.values.map GlobalVar.initial =
    options.globals.map fun g => .int g.value := hprepared.initial
  unfold initialGlobals
  rw [hglobals, show (prepared.1.globals.values.map fun var => Value.ofConstant var.initial) =
    (prepared.1.globals.values.map GlobalVar.initial).map Value.ofConstant by simp, hinitial,
    List.map_map]
  rfl

theorem at_start (h : Compiled options program m prepared v t) :
    At h.target (options.start prepared) options.world h.begun where
  stands :=
    { body := rfl
      block := h.finished.entry
      code := by
        change t.returned.builder.flow.code ⟨0⟩ =
          (Builder.start options.signature).flow.code ⟨0⟩ ++
            t.returned.builder.flow.code t.returned.builder.body.entry
        rw [Builder.flow_start, h.finished.entry]
        rfl
      exit := by
        change t.returned.builder.flow.exit t.returned.builder.body.entry =
          t.returned.builder.flow.exit ⟨0⟩
        rw [h.finished.entry]
      callers := rfl }
  scope := by
    obtain ⟨scopes, hprepared, hentry⟩ := h.ready.configured
    refine ⟨fun name => ?_, rfl⟩
    change options.place? name = (prepared.2.lookup? name).map Binding.place
    rw [hentry, Scopes.lookup?_define, hprepared.names, Options.place?]
    by_cases hname : name = options.entry
    · rw [if_pos hname, if_pos hname]
      rfl
    · rw [if_neg hname, if_neg hname, Option.map_map]
      rfl
  stores :=
    { cells := fun k => rfl
      globals := by
        intro i hi
        have hsize : m.globals.size = options.globals.length := by
          have := congrArg List.length h.initialGlobals_eq
          simpa [initialGlobals, Table.values, Table.size] using this
        have hlt : i < options.globals.length := hsize ▸ hi
        refine ⟨.int options.globals[i].value, ?_, ?_⟩
        · change (initialGlobals m)[i]? = _
          rw [h.initialGlobals_eq, List.getElem?_map, List.getElem?_eq_getElem hlt]
          rfl
        · change some (Datum.int _) = some ((options.globals[i]?).elim _ _)
          rw [List.getElem?_eq_getElem hlt]
          rfl
      output := rfl }

/-! ## Whole runs -/

/-- A run of a compiled function makes as many steps as there are slots before the program. -/
theorem steps_begun (h : Compiled options program m prepared v t) :
    Steps m t.builder.body.slots.length
      (h.begun.advance (t.returned.builder.body.code t.returned.builder.body.entry)) h.begun := by
  rw [h.finished.code_entry]
  exact steps_allocations m t.builder.body.slots _ h.begun

/-- At the end of the program the function returns zero. -/
theorem step_returned (h : Compiled options program m prepared v t) {w : World} {c : Config}
    (hat : At h.target t w c) : c.step m = .ok (.halted (some (.int 0)) w.output) := by
  obtain ⟨hcode, hexit⟩ := hat.stands.ended h.reaches.sound.opened
    (t := .ret (some (.ofInt 0))) (by rintro ⟨⟩) (fun _ => ⟨List.prefix_rfl, fun _ => ⟨rfl, rfl⟩⟩)
  unfold Config.step
  rw [hcode, hexit]
  change c.leave (some (.int 0)) = _
  unfold Config.leave
  rw [hat.stands.callers, hat.stores.output]

/-- A run with any limit succeeds or fails as the evaluator does, unless it reaches its limit. -/
theorem run_follows (h : Compiled options program m prepared v t) (limit : Nat) :
    run m limit options.entry = .error (.stepLimit limit) ∨
      Follows (fun out p => out.result = some (.int 0) ∧ out.output = p.2.output)
        (run m limit options.entry) (eval .lexical program options.world) := by
  have houtcome := Form.simulates h.valid _ h.lowered h.ready.sound h.contains h.at_start
  rw [eval_eq .lexical _ (h.lowered.hasForm program), h.run_eq]
  cases hresult : evalForm .lexical (.ofExpr options.strict program) options.world with
  | error e =>
    rw [hresult] at houtcome
    obtain ⟨n, c, fault, hn, hstep, hfault⟩ := houtcome
    rcases resume_of_fault (h.steps_begun.trans hn) hstep with hrun | hrun
    · rw [hrun]
      exact .inr hfault
    · exact .inl hrun
  | ok p =>
    obtain ⟨d, w⟩ := p
    rw [hresult] at houtcome
    obtain ⟨c, harrived, -⟩ := houtcome
    obtain ⟨n, hn, -⟩ := harrived.steps
    have hsteps := h.steps_begun.trans hn
    rcases Nat.lt_or_ge (t.builder.body.slots.length + n) limit with hlt | hge
    · obtain ⟨steps, hrun⟩ := resume_of_halt hsteps (h.step_returned harrived.toAt) hlt
      rw [hrun]
      exact .inr ⟨rfl, rfl⟩
    · exact .inl (resume_of_limit hsteps hge)

/-- If a run fails before its limit is reached, the evaluator fails for the same reason. -/
theorem run_fault (h : Compiled options program m prepared v t) {limit : Nat} {fault : Fault}
    (hrun : run m limit options.entry = .error fault) : fault = .stepLimit limit ∨
      ∃ e, eval .lexical program options.world = .error e ∧ e.Explains fault := by
  rcases h.run_follows limit with hlimit | hfollows
  · rw [hrun] at hlimit
    cases hlimit
    exact .inl rfl
  · rw [hrun] at hfollows
    cases heval : eval .lexical program options.world with
    | ok p =>
      rw [heval] at hfollows
      exact hfollows.elim
    | error e =>
      rw [heval] at hfollows
      exact .inr ⟨e, rfl, hfollows⟩

/-- If a run succeeds, so does the evaluator. -/
theorem eval_of_run (h : Compiled options program m prepared v t) {limit : Nat}
    {out : Machine.Outcome} (hrun : run m limit options.entry = .ok out) :
    (eval .lexical program options.world).isOk = true := by
  rcases h.run_follows limit with hlimit | hfollows
  · rw [hrun] at hlimit
    cases hlimit
  · rw [hrun] at hfollows
    cases heval : eval .lexical program options.world with
    | ok p => rfl
    | error e =>
      rw [heval] at hfollows
      exact hfollows.elim

/-- If the evaluator succeeds, a limit of the size of the function is not reached. -/
theorem run_halts (h : Compiled options program m prepared v t) {limit : Nat}
    (hlimit : t.returned.builder.body.size ≤ limit) {d : Datum} {w : World}
    (heval : eval .lexical program options.world = .ok (d, w)) :
    ∃ steps, run m limit options.entry = .ok ⟨some (.int 0), w.output, steps⟩ := by
  have houtcome := Form.simulates h.valid _ h.lowered h.ready.sound h.contains h.at_start
  rw [eval_eq .lexical _ (h.lowered.hasForm program)] at heval
  rw [heval] at houtcome
  obtain ⟨c, harrived, -⟩ := houtcome
  obtain ⟨n, hn, hwork⟩ := harrived.steps
  rw [h.run_eq]
  refine resume_of_halt (h.steps_begun.trans hn) (h.step_returned harrived.toAt) ?_
  have hstart : n + 0 + t.builder.body.slots.length ≤ t.builder.body.work + 0 := hwork
  have hreturned : t.returned.builder.body.work = t.builder.body.work + 1 :=
    Builder.work_conclude h.reaches.sound.opened (by rintro ⟨⟩)
  have hsize := t.returned.builder.body.work_le_size
  omega

end Compiled

end SexprSsa
