/-
SexprSsa.Proofs.Checked — what a passed check establishes.

A block that passes the check ends properly, goes to blocks that exist, names
variables and strings that exist, calls functions that can be called so, and
its phis know every predecessor (`Block.Checked`).

Main statement: `Module.Built.checked`. In a built module that is verified
every block of every function is one that the check has passed, since the
layout that the check walks leaves none out.
-/
import SexprSsa.Ir.Verify
import SexprSsa.Proofs.Construction
import SexprSsa.Proofs.Flow

namespace SexprSsa

/-! ## Checks that pass -/

section
variable {ε α : Type}

theorem bind_eq_ok {x y : Except ε Unit} (h : (do x; y) = .ok ()) :
    x = .ok () ∧ y = .ok () := by
  cases x with
  | error e => cases h
  | ok u => exact ⟨rfl, h⟩

theorem ok_of_forM {f : α → Except ε Unit} {l : List α} (h : l.forM f = .ok ()) :
    ∀ a ∈ l, f a = .ok () := by
  induction l with
  | nil => simp
  | cons a rest ih =>
    have h : (do f a; rest.forM f) = .ok () := h
    obtain ⟨ha, hrest⟩ := bind_eq_ok h
    exact List.forall_mem_cons.2 ⟨ha, ih hrest⟩

theorem of_ite_ok {p : Prop} [Decidable p] {e : ε} {x : Except ε Unit}
    (h : (if p then x else .error e) = .ok ()) : p ∧ x = .ok () := by
  split at h
  · next hp => exact ⟨hp, h⟩
  · cases h

end

/-! ## Blocks -/

/-- A variable or a string that an operand names exists. -/
def Operand.Resolves (m : Module) : Operand → Prop
  | .global id => ∃ var, m.global? id = some var
  | .str id => ∃ s, m.string? id = some s
  | _ => True

/-- What the check of a block establishes about control and about what is named. -/
structure Block.Checked (m : Module) (body : Body) (b : Block) : Prop where
  terminated : b.terminator ≠ .missing
  exits : ∀ o ∈ b.terminator.operands, o.Resolves m
  targets : ∀ q ∈ b.successors, ∃ target, body.block? q = some target
  operands : ∀ i ∈ b.instrs, ∀ o ∈ i.operands, o.Resolves m
  calls : ∀ {result callee args}, .call result callee args ∈ b.instrs →
    ∃ f, m.func? callee = some f ∧ f.signature.accepts args.length = true
  phis : ∀ {result ty incoming}, .phi result ty incoming ∈ b.instrs →
    ∀ p ∈ body.predecessors b.id, p ∈ incoming.map Prod.snd

namespace Body

variable {m : Module} {body : Body} {b : Block}

theorem resolves_of_checkOperand {o : Operand} (h : body.checkOperand m o = .ok ()) :
    o.Resolves m := by
  cases o with
  | global id => exact Option.isSome_iff_exists.1 (of_ite_ok h).1
  | str id => exact Option.isSome_iff_exists.1 (of_ite_ok h).1
  | const value => trivial
  | temp id => trivial
  | slot id => trivial
  | func name => trivial

theorem terminator_of_check {ret : Ty} (h : body.checkTerminator m ret b = .ok ()) :
    b.terminator ≠ .missing ∧ ∀ o ∈ b.terminator.operands, o.Resolves m := by
  unfold checkTerminator at h
  cases ht : b.terminator with
  | missing =>
    rw [ht] at h
    cases h
  | jump target => simp [Terminator.operands]
  | branch condition yes no =>
    rw [ht] at h
    simpa [Terminator.operands] using resolves_of_checkOperand h
  | ret value =>
    cases value with
    | none => simp [Terminator.operands]
    | some value =>
      simp only [ht] at h
      split at h
      · cases h
      · simpa [Terminator.operands] using resolves_of_checkOperand h

theorem targets_of_check (h : body.checkTargets b = .ok ()) :
    ∀ q ∈ b.successors, ∃ target, body.block? q = some target := by
  intro q hq
  exact Option.isSome_iff_exists.1 (of_ite_ok (ok_of_forM h q hq)).1

/-- A phi that is accepted has an entry for each predecessor of its block. -/
theorem incoming_of_check {incoming : List (Operand × BlockId)}
    (h : body.checkIncoming b.id incoming = .ok ()) :
    ∀ p ∈ body.predecessors b.id, p ∈ incoming.map Prod.snd := by
  intro p hp
  have hall := (bind_eq_ok h).2
  exact (of_ite_ok (ok_of_forM hall p hp)).1

/-- The check of a list of instructions has checked each of them. -/
theorem instr_of_check {late : Bool} {instrs : List Instr}
    (h : body.checkInstrs m b late instrs = .ok ()) :
    ∀ i ∈ instrs, (∃ late, body.checkPlace b late i = .ok ()) ∧
      (∀ o ∈ i.operands, body.checkOperand m o = .ok ()) ∧ checkCall m i = .ok () := by
  induction instrs generalizing late with
  | nil => simp
  | cons i rest ih =>
    rw [checkInstrs] at h
    obtain ⟨hplace, h⟩ := bind_eq_ok h
    obtain ⟨hoperands, h⟩ := bind_eq_ok h
    obtain ⟨hcall, hrest⟩ := bind_eq_ok h
    exact List.forall_mem_cons.2 ⟨⟨⟨late, hplace⟩, ok_of_forM hoperands, hcall⟩, ih hrest⟩

theorem callee_of_check {result : ValueId} {callee : String} {args : List Operand}
    (h : checkCall m (.call result callee args) = .ok ()) :
    ∃ f, m.func? callee = some f ∧ f.signature.accepts args.length = true := by
  cases hf : m.func? callee with
  | none =>
    simp only [checkCall, hf] at h
    cases h
  | some f =>
    simp only [checkCall, hf] at h
    exact ⟨f, rfl, (of_ite_ok h).1⟩

theorem checked_of_checkBlock {ret : Ty} (h : body.checkBlock m ret b = .ok ()) :
    b.Checked m body := by
  obtain ⟨hterminator, h⟩ := bind_eq_ok h
  obtain ⟨htargets, hinstrs⟩ := bind_eq_ok h
  have hinstr := instr_of_check hinstrs
  refine ⟨(terminator_of_check hterminator).1, (terminator_of_check hterminator).2,
    targets_of_check htargets, fun i hi o ho => ?_, fun hi => ?_, fun hi => ?_⟩
  · exact resolves_of_checkOperand ((hinstr i hi).2.1 o ho)
  · exact callee_of_check (hinstr _ hi).2.2
  · obtain ⟨late, hplace⟩ := (hinstr _ hi).1
    cases late with
    | true => cases hplace
    | false => exact incoming_of_check hplace

/-- Of a body that passes the check, the check has passed each block that is laid out. -/
theorem checkBlock_of_check {ret : Ty} (h : body.check m ret = .ok ()) {q : BlockId}
    (hq : q ∈ body.layout) (hb : body.block? q = some b) : body.checkBlock m ret b = .ok () := by
  unfold check at h
  split at h
  · cases h
  · exact ok_of_forM h b (List.mem_filterMap.2 ⟨q, hq, hb⟩)

/-- A body in order all of whose blocks have passed the check. -/
structure Checked (m : Module) (body : Body) : Prop extends body.Orderly where
  blocks : ∀ {q b}, body.block? q = some b → b.Checked m body

/-- The layout of a body in order leaves no block out of the check. -/
theorem Orderly.checked (h : body.Orderly) {ret : Ty} (hcheck : body.check m ret = .ok ()) :
    body.Checked m where
  toOrderly := h
  blocks {q b} hb := by
    unfold check at hcheck
    split at hcheck
    · cases hcheck
    · obtain rfl := h.ids hb
      exact checked_of_checkBlock (ok_of_forM hcheck b (h.mem_laidOut.2 hb))

end Body

/-! ## Modules -/

namespace Module

variable {m : Module} {name : String} {f : Func} {body : Body}

theorem check_of_verify (h : m.verify = .ok ()) (hf : m.func? name = some f)
    (hbody : f.body = some body) : body.check m f.signature.ret = .ok () := by
  have hmem : f ∈ m.defined := by
    have hvalue : f ∈ m.functions.values :=
      List.mem_map_of_mem ((m.functions.find?_eq_some_iff name f).1 hf)
    exact List.mem_filter.2 ⟨hvalue, by simp [Func.isDeclaration, hbody]⟩
  have hverify := ok_of_forM h f hmem
  simp only [verifyFunc, Func.definition, hbody] at hverify
  cases hcheck : body.check m f.signature.ret with
  | error e =>
    rw [hcheck] at hverify
    cases hverify
  | ok u => rfl

/-- Every body in a module is in order and has passed the check. -/
def Checked (m : Module) : Prop :=
  ∀ name f body, m.func? name = some f → f.body = some body → body.Checked m

/-- **In a built and verified module the check has passed every block of every function.** -/
theorem Built.checked (h : m.Built) (hverify : m.verify = .ok ()) : m.Checked :=
  fun name f body hf hbody =>
    (h.orderly name f body hf hbody).checked (check_of_verify hverify hf hbody)

end Module

end SexprSsa
