/-
SexprSsa.Proofs.Layouts — the order in which blocks are laid out.

Blocks may be moved within the layout of a function; a move that is refused
changes nothing, and one that is made permutes the layout (`Body.moved_eq`).
Two arguments show that nobody notices. The check walks the layout and finds
predecessors in it, but what makes it pass is said of each block and of which
blocks are predecessors, not in which order. The machine never looks at a
layout: with every layout taken away (`Module.unlaid`) it takes the same steps,
and a module and the module after moves are the same then.

Main statement: `moved_alike`. A module after any moves is verified if and only
if it was before, and every run of it has the same outcome.
-/
import SexprSsa.Proofs.Checked
import SexprSsa.Proofs.Finished
import SexprSsa.Proofs.PhiOrder
import SexprSsa.Proofs.Renaming

namespace SexprSsa

/-! ## Moves -/

/-- A block of a function that is to be laid out right after another. -/
structure Move where
  function : String
  block : BlockId
  anchor : BlockId
  deriving DecidableEq, Repr

/-- The body after a move; one that is refused changes nothing. -/
def Body.moved (body : Body) (block anchor : BlockId) : Body :=
  match body.moveAfter block anchor with
  | .ok body' => body'
  | .error _ => body

/-- A move changes the order of a layout and nothing else. -/
theorem Body.moved_eq (body : Body) (block anchor : BlockId) :
    ∃ layout, layout.Perm body.layout ∧ body.moved block anchor = { body with layout } := by
  unfold Body.moved
  rcases h : relocate body.layout block anchor with e | layout
  · have hrefused : body.moveAfter block anchor = .error e := by
      rw [Body.moveAfter, h]
      rfl
    rw [hrefused]
    exact ⟨body.layout, .refl _, rfl⟩
  · have hmoved : body.moveAfter block anchor = .ok { body with layout } := by
      rw [Body.moveAfter, h]
      rfl
    rw [hmoved]
    exact ⟨layout, relocate_perm h, rfl⟩

namespace Module

/-- The module after a move in one of its functions. -/
def move (m : Module) (r : Move) : Module :=
  m.modifyBody r.function fun body => body.moved r.block r.anchor

/-- The module after moves, made one after the other. -/
def moved (m : Module) (moves : List Move) : Module := moves.foldl move m

end Module

/-! ## Without layouts -/

/-- The body without its layout. -/
def Body.unlaid (body : Body) : Body := { body with layout := [] }

/-- The function without its layout. -/
def Func.unlaid (f : Func) : Func := { f with body := f.body.map Body.unlaid }

/-- The module without the layouts of its functions. -/
def Module.unlaid (m : Module) : Module :=
  { m with functions := m.functions.mapValues Func.unlaid }

@[simp] theorem Module.func?_unlaid (m : Module) (name : String) :
    m.unlaid.func? name = (m.func? name).map Func.unlaid :=
  Table.find?_mapValues ..

theorem Body.unlaid_moved (body : Body) (block anchor : BlockId) :
    (body.moved block anchor).unlaid = body.unlaid := by
  obtain ⟨layout, -, hmoved⟩ := body.moved_eq block anchor
  rw [hmoved]
  rfl

/-- A move is not seen without the layouts. -/
theorem Module.unlaid_move (m : Module) (r : Move) : (m.move r).unlaid = m.unlaid := by
  have hfunctions : (m.move r).functions.mapValues Func.unlaid =
      m.functions.mapValues Func.unlaid := by
    refine Table.ext ?_
    simp only [move, modifyBody, Table.modify, Table.mapValues, List.map_map]
    refine List.map_congr_left fun e _ => ?_
    by_cases hname : e.1 = r.function
    · simp [hname, Func.unlaid, Function.comp_def, Body.unlaid_moved]
    · simp [hname]
  change { m with functions := (m.move r).functions.mapValues Func.unlaid } = m.unlaid
  rw [hfunctions]
  rfl

/-! ## Checks that pass -/

section
variable {ε α : Type}

theorem seq_eq_ok_iff {x y : Except ε Unit} :
    (do x; y) = .ok () ↔ x = .ok () ∧ y = .ok () := by
  refine ⟨bind_eq_ok, fun ⟨hx, hy⟩ => ?_⟩
  rw [hx]
  exact hy

theorem forM_eq_ok_iff {f : α → Except ε Unit} {l : List α} :
    l.forM f = .ok () ↔ ∀ a ∈ l, f a = .ok () :=
  ⟨ok_of_forM, forM_eq_ok⟩

theorem ite_eq_ok_iff {p : Prop} [Decidable p] {e : ε} :
    (if p then .ok () else .error e : Except ε Unit) = .ok () ↔ p :=
  ⟨fun h => (of_ite_ok h).1, fun h => if_pos h⟩

end

namespace Body

variable {m : Module} {body : Body} {layout : List BlockId}

/-- A block that is laid out is so in every order. -/
theorem mem_laidOut_perm (h : layout.Perm body.layout) {b : Block} :
    b ∈ { body with layout }.laidOut ↔ b ∈ body.laidOut :=
  (h.filterMap body.block?).mem_iff

theorem mem_predecessors_perm (h : layout.Perm body.layout) {p q : BlockId} :
    p ∈ { body with layout }.predecessors q ↔ p ∈ body.predecessors q :=
  (((h.filterMap body.block?).filter fun b => q ∈ b.successors).map Block.id).mem_iff

/-- A phi has to agree with the predecessors of its block, in whatever order. -/
theorem checkIncoming_perm (h : layout.Perm body.layout) (q : BlockId)
    (incoming : List (Operand × BlockId)) :
    { body with layout }.checkIncoming q incoming = .ok () ↔
      body.checkIncoming q incoming = .ok () := by
  unfold checkIncoming
  simp only [seq_eq_ok_iff, forM_eq_ok_iff, ite_eq_ok_iff, mem_predecessors_perm h]

theorem checkPlace_perm (h : layout.Perm body.layout) (b : Block) (late : Bool) (i : Instr) :
    { body with layout }.checkPlace b late i = .ok () ↔ body.checkPlace b late i = .ok () := by
  cases i with
  | phi result ty incoming =>
    cases late with
    | true => rfl
    | false => exact checkIncoming_perm h b.id incoming
  | _ => rfl

theorem checkOperand_perm (layout : List BlockId) (o : Operand) :
    { body with layout }.checkOperand m o = body.checkOperand m o := by
  cases o <;> rfl

theorem checkInstrs_perm (h : layout.Perm body.layout) (b : Block) (late : Bool)
    (instrs : List Instr) :
    { body with layout }.checkInstrs m b late instrs = .ok () ↔
      body.checkInstrs m b late instrs = .ok () := by
  induction instrs generalizing late with
  | nil => rfl
  | cons i rest ih =>
    have hoperands : { body with layout }.checkOperand m = body.checkOperand m :=
      funext (checkOperand_perm layout)
    unfold checkInstrs
    rw [seq_eq_ok_iff, seq_eq_ok_iff, seq_eq_ok_iff, seq_eq_ok_iff, seq_eq_ok_iff, seq_eq_ok_iff,
      checkPlace_perm h, hoperands, ih]

theorem checkBlock_perm (h : layout.Perm body.layout) (ret : Ty) (b : Block) :
    { body with layout }.checkBlock m ret b = .ok () ↔ body.checkBlock m ret b = .ok () := by
  have hterminator : { body with layout }.checkTerminator m ret b =
      body.checkTerminator m ret b := by
    unfold checkTerminator
    simp only [checkOperand_perm layout]
  unfold checkBlock
  rw [seq_eq_ok_iff, seq_eq_ok_iff, seq_eq_ok_iff, seq_eq_ok_iff, hterminator,
    checkInstrs_perm h]
  rfl

/-- **A body passes the check in one order of its blocks if and only if it does in another.** -/
theorem check_perm (h : layout.Perm body.layout) (ret : Ty) :
    { body with layout }.check m ret = .ok () ↔ body.check m ret = .ok () := by
  unfold check
  rw [show ({ body with layout } : Body).layout.length = body.layout.length from h.length_eq]
  split
  · simp
  · rw [forM_eq_ok_iff, forM_eq_ok_iff]
    simp only [mem_laidOut_perm h, checkBlock_perm h]

theorem check_moved (body : Body) (block anchor : BlockId) (ret : Ty) :
    (body.moved block anchor).check m ret = .ok () ↔ body.check m ret = .ok () := by
  obtain ⟨layout, hperm, hmoved⟩ := body.moved_eq block anchor
  rw [hmoved]
  exact check_perm hperm ret

/-! ## What the check asks of the module -/

theorem checkOperand_unlaid (body : Body) (m : Module) :
    body.checkOperand m.unlaid = body.checkOperand m := by
  funext o
  cases o with
  | func name => simp only [checkOperand, Module.func?_unlaid, Option.isSome_map]
  | _ => rfl

theorem checkCall_unlaid (m : Module) : checkCall m.unlaid = checkCall m := by
  funext i
  cases i with
  | call result callee args =>
    simp only [checkCall, Module.func?_unlaid]
    cases m.func? callee <;> rfl
  | _ => rfl

theorem checkInstrs_unlaid (body : Body) (m : Module) (b : Block) (late : Bool)
    (instrs : List Instr) :
    body.checkInstrs m.unlaid b late instrs = body.checkInstrs m b late instrs := by
  induction instrs generalizing late with
  | nil => rfl
  | cons i rest ih => simp only [checkInstrs, checkOperand_unlaid, checkCall_unlaid, ih]

/-- The check of a body asks for the signatures of the other functions and not for their blocks. -/
theorem check_unlaid (body : Body) (m : Module) (ret : Ty) :
    body.check m.unlaid ret = body.check m ret := by
  have hblock : body.checkBlock m.unlaid ret = body.checkBlock m ret := by
    funext b
    simp only [checkBlock, checkTerminator, checkOperand_unlaid, checkInstrs_unlaid]
  unfold check
  rw [hblock]

end Body

namespace Module

theorem verifyFunc_eq_ok_iff (m : Module) (f : Func) (h : f.isDeclaration = false) :
    m.verifyFunc f = .ok () ↔ ∀ body, f.body = some body →
      body.check m.unlaid f.signature.ret = .ok () := by
  cases hbody : f.body with
  | none => simp [Func.isDeclaration, hbody] at h
  | some body =>
    simp only [verifyFunc, Func.definition, hbody, Option.some.injEq, forall_eq',
      Body.check_unlaid]
    cases body.check m f.signature.ret with
    | error e => simp [Except.mapError]
    | ok u => simp [Except.mapError]

/-- A module is verified if every body in it passes the check. -/
theorem verify_eq_ok_iff (m : Module) :
    m.verify = .ok () ↔ ∀ e ∈ m.functions.entries, ∀ body, e.2.body = some body →
      body.check m.unlaid e.2.signature.ret = .ok () := by
  unfold verify
  rw [forM_eq_ok_iff]
  simp only [defined, List.mem_filter, Table.values, Bool.not_eq_true']
  constructor
  · intro h e he body hbody
    have hdefined : e.2.isDeclaration = false := by simp [Func.isDeclaration, hbody]
    exact (verifyFunc_eq_ok_iff m e.2 hdefined).1 (h e.2 ⟨List.mem_map_of_mem he, hdefined⟩) body
      hbody
  · rintro h f ⟨hf, hdefined⟩
    obtain ⟨e, he, rfl⟩ := List.mem_map.1 hf
    exact (verifyFunc_eq_ok_iff m e.2 hdefined).2 (h e he)

/-- One move makes no difference to the check. -/
theorem verify_move (m : Module) (r : Move) :
    (m.move r).verify = .ok () ↔ m.verify = .ok () := by
  rw [verify_eq_ok_iff, verify_eq_ok_iff, unlaid_move]
  change (∀ e ∈ m.functions.entries.map _, _) ↔ _
  rw [List.forall_mem_map]
  refine forall₂_congr fun e _ => ?_
  by_cases hname : e.1 = r.function
  · rw [if_pos hname]
    constructor
    · intro h body hbody
      refine (body.check_moved r.block r.anchor _).1 (h _ ?_)
      exact Option.map_eq_some_iff.2 ⟨body, hbody, rfl⟩
    · intro h body' hbody'
      obtain ⟨body, hbody, rfl⟩ := Option.map_eq_some_iff.1 hbody'
      exact (body.check_moved r.block r.anchor _).2 (h body hbody)
  · rw [if_neg hname]

end Module

namespace Machine

/-! ## Runs -/

/-- The frame without the layout of its function. -/
def Frame.unlaid (f : Frame) : Frame := { f with body := f.body.unlaid }

/-- A function that waits, without its layout. -/
def Suspended.unlaid (s : Suspended) : Suspended := { s with frame := s.frame.unlaid }

/-- The state without the layouts of the functions that run. -/
def Config.unlaid (c : Config) : Config :=
  { c with frame := c.frame.unlaid, callers := c.callers.map Suspended.unlaid }

/-- What a call leads to, without layouts. -/
def Invocation.unlaid : Invocation → Invocation
  | .entered frame => .entered frame.unlaid
  | .provided written value => .provided written value

/-- What a step leads to, without layouts. -/
def Next.unlaid : Next → Next
  | .running c => .running c.unlaid
  | .halted result output => .halted result output

section
variable {α β γ : Type}

/-- What follows a computation commutes with a map if it does so for every result. -/
theorem bind_map {x : Except Fault α} {f : α → Except Fault β} {g : α → Except Fault γ}
    {h : γ → β} (hfg : ∀ a, f a = (g a).map h) : (x >>= f) = (x >>= g).map h := by
  cases x with
  | error e => rfl
  | ok a => exact hfg a

end

theorem enterBlock_unlaid (body : Body) (cameFrom : Option BlockId) (values slots : Memory)
    (q : BlockId) :
    enterBlock body.unlaid cameFrom values slots q =
      (enterBlock body cameFrom values slots q).map Frame.unlaid := by
  have hblock : body.unlaid.block? q = body.block? q := rfl
  unfold enterBlock
  rw [hblock]
  cases body.block? q <;> rfl

/-- A call finds the same function, without its layout. -/
theorem invoke_unlaid (m : Module) (name : String) (args : List Value) :
    invoke m.unlaid name args = (invoke m name args).map Invocation.unlaid := by
  have hprint : print m.unlaid = print m := print_eq_of_strings rfl
  unfold invoke
  rw [Module.func?_unlaid, hprint]
  cases m.func? name with
  | none => rfl
  | some f =>
    simp only [Option.map_some, Func.unlaid]
    split
    · cases f.body with
      | none =>
        simp only [Option.map_none]
        split
        · exact bind_map fun text => rfl
        · rfl
      | some body =>
        simp only [Option.map_some]
        change (enterBlock body.unlaid none ∅ ∅ body.entry >>= _) = _
        rw [enterBlock_unlaid]
        cases enterBlock body none ∅ ∅ body.entry <;> rfl
    · rfl

namespace Config

theorem store_unlaid (c : Config) (value address : Value) :
    c.unlaid.store value address = (c.store value address).map Config.unlaid := by
  cases address with
  | int value => rfl
  | bool value => rfl
  | ptr target =>
    cases target with
    | slot id => rfl
    | global id =>
      simp only [store]
      change (if id.index < c.globals.length then _ else _) = _
      split <;> rfl
    | str id => rfl

/-- An instruction does the same without layouts. -/
theorem execute_unlaid (m : Module) (c : Config) (i : Instr) :
    c.unlaid.execute m.unlaid i = (c.execute m i).map Config.unlaid := by
  cases i with
  | alloca slot ty name => rfl
  | load result ty address =>
    exact bind_map fun address => bind_map fun value => rfl
  | store address value =>
    exact bind_map fun value => bind_map fun address => c.store_unlaid value address
  | arith result op left right =>
    refine bind_map fun left => bind_map fun right => ?_
    cases op.eval? left right <;> rfl
  | compare result cond left right =>
    exact bind_map fun left => bind_map fun right => rfl
  | call result callee args =>
    refine bind_map fun args => ?_
    rw [invoke_unlaid]
    cases invoke m callee args with
    | error e => rfl
    | ok invocation => cases invocation <;> rfl
  | phi result ty entries =>
    exact bind_map fun operand => bind_map fun value => rfl

theorem goto_unlaid (c : Config) (q : BlockId) :
    c.unlaid.goto q = (c.goto q).map Next.unlaid := by
  unfold goto Frame.goto
  change (enterBlock c.frame.body.unlaid _ _ _ q >>= _) = _
  rw [enterBlock_unlaid]
  change ((enterBlock c.frame.body (some c.frame.block) c.frame.values c.frame.slots q).map _ >>=
    _) = _
  cases enterBlock c.frame.body (some c.frame.block) c.frame.values c.frame.slots q <;> rfl

theorem leave_unlaid (c : Config) (result : Option Value) :
    c.unlaid.leave result = (c.leave result).map Next.unlaid := by
  unfold leave
  obtain ⟨frame, callers, globals, output⟩ := c
  cases callers with
  | nil => rfl
  | cons caller callers => cases result <;> rfl

theorem terminate_unlaid (c : Config) (t : Terminator) :
    c.unlaid.terminate t = (c.terminate t).map Next.unlaid := by
  cases t with
  | missing => rfl
  | jump q => exact c.goto_unlaid q
  | branch condition yes no =>
    refine bind_map fun value => ?_
    split
    · exact c.goto_unlaid yes
    · exact c.goto_unlaid no
  | ret value =>
    cases value with
    | none => exact c.leave_unlaid none
    | some value => exact bind_map fun value => c.leave_unlaid (some value)

/-- **A step is the same without layouts.** -/
theorem step_unlaid (m : Module) (c : Config) :
    c.unlaid.step m.unlaid = (c.step m).map Next.unlaid := by
  have hcode : c.unlaid.frame.code = c.frame.code := rfl
  unfold step
  rw [hcode]
  cases c.frame.code with
  | nil => exact c.terminate_unlaid c.frame.exit
  | cons i code =>
    let c' : Config := { c with frame := { c.frame with code } }
    change (c'.unlaid.execute m.unlaid i >>= _) = Except.map _ (c'.execute m i >>= _)
    rw [execute_unlaid]
    cases c'.execute m i <;> rfl

end Config

theorem resume_unlaid (m : Module) (limit left : Nat) (c : Config) :
    resume m.unlaid limit left c.unlaid = resume m limit left c := by
  induction left generalizing c with
  | zero => rfl
  | succ left ih =>
    unfold resume
    rw [Config.step_unlaid]
    rcases c.step m with e | next
    · rfl
    · cases next with
      | running c' => exact ih c'
      | halted result output => rfl

/-- The variables of a module do not hang on its layouts, nor does anything in a run. -/
theorem run_unlaid (m : Module) (limit : Nat) (entry : String) :
    run m.unlaid limit entry = run m limit entry := by
  unfold run
  rw [invoke_unlaid]
  cases invoke m entry [] with
  | error e => rfl
  | ok invocation =>
    cases invocation with
    | entered frame => exact resume_unlaid m limit limit (.initial m frame)
    | provided written value => rfl

end Machine

/-! ## Modules after moves -/

/-- **The layout of blocks has no meaning.** After any moves of blocks in the functions of a module,
made or refused, the module is verified if and only if it was before, and it runs to the same
outcome from every function under every limit. -/
theorem moved_alike (m : Module) (moves : List Move) :
    ((m.moved moves).verify = .ok () ↔ m.verify = .ok ()) ∧
    ∀ limit entry, Machine.run (m.moved moves) limit entry = Machine.run m limit entry := by
  induction moves generalizing m with
  | nil => exact ⟨Iff.rfl, fun _ _ => rfl⟩
  | cons r moves ih =>
    obtain ⟨hverify, hrun⟩ := ih (m.move r)
    refine ⟨hverify.trans (m.verify_move r), fun limit entry => ?_⟩
    calc Machine.run (m.moved (r :: moves)) limit entry
        = Machine.run (m.move r) limit entry := hrun limit entry
      _ = Machine.run (m.move r).unlaid limit entry := (Machine.run_unlaid ..).symm
      _ = Machine.run m.unlaid limit entry := by rw [Module.unlaid_move]
      _ = Machine.run m limit entry := Machine.run_unlaid ..

end SexprSsa
