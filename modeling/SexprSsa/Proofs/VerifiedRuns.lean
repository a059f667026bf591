/-
SexprSsa.Proofs.VerifiedRuns — runs of verified modules do not dangle.

A fault is dangling if it shows that the code names something which is not
there or cannot be used so: a block, a variable, a string, a function, an
entry of a phi. The invariant of a run is that control stands in checked code
and came there over an edge of the body, in the running function and in those
that wait, and that every pointer to a variable or a string leads somewhere,
wherever it is kept (`Config.Sound`). One step keeps it and cannot fail by a
dangling fault (`Config.Sound.step`).

Main statement: `run_verified`.
-/
import SexprSsa.Machine.Run
import SexprSsa.Proofs.Checked

namespace SexprSsa.Machine

/-! ## Dangling faults -/

/-- The fault shows that something named is missing or is not what it is used as. -/
def Fault.IsDangling : Fault → Prop
  | .functionNotFound _ | .wrongArity _ _ | .missingBlock _ | .unterminated _
  | .loadUnknown _ | .storeUnknown _ | .noIncoming _ _ | .unknownString _ => True
  | _ => False

section
variable {α β : Type}

/-- A computation does not fail by a dangling fault, and what it returns is as it should be. -/
def Secure (x : Except Fault α) (post : α → Prop) : Prop :=
  match x with
  | .ok a => post a
  | .error fault => ¬ fault.IsDangling

namespace Secure

variable {x : Except Fault α} {post : α → Prop}

theorem bind {f : α → Except Fault β} {post' : β → Prop} (hx : Secure x post)
    (hf : ∀ a, post a → Secure (f a) post') : Secure (x >>= f) post' := by
  cases x with
  | error fault => exact hx
  | ok a => exact hf a hx

/-- Of a list of computations, each gives what it should or the whole fails securely. -/
theorem mapM {f : β → Except Fault α} {l : List β} (h : ∀ b ∈ l, Secure (f b) post) :
    Secure (l.mapM f) (fun result => result.length = l.length ∧ ∀ a ∈ result, post a) := by
  induction l with
  | nil => simp [Secure, pure, Except.pure]
  | cons b rest ih =>
    obtain ⟨hb, hrest⟩ := List.forall_mem_cons.1 h
    rw [List.mapM_cons]
    refine hb.bind fun a ha => (ih hrest).bind fun more hmore => ?_
    exact ⟨congrArg (· + 1) hmore.1, List.forall_mem_cons.2 ⟨ha, hmore.2⟩⟩

end Secure

end

/-! ## Pointers -/

variable {m : Module}

/-- A pointer to a variable or a string leads to one. -/
def Value.Resolves (m : Module) : Value → Prop
  | .ptr (.global id) => ∃ var, m.global? id = some var
  | .ptr (.str id) => ∃ s, m.string? id = some s
  | _ => True

theorem Value.resolves_ofConstant (c : Constant) : (Value.ofConstant c).Resolves m := by
  cases c <;> trivial

/-- Every pointer in a memory leads somewhere. -/
def Memory.Resolves (m : Module) (memory : Memory) : Prop :=
  ∀ (i : Nat) (v : Value), memory[i]? = some v → v.Resolves m

theorem Memory.resolves_empty : Memory.Resolves m ∅ := by
  intro i v h
  simp at h

theorem Memory.Resolves.insert {memory : Memory} (h : Memory.Resolves m memory) (i : Nat)
    {v : Value} (hv : v.Resolves m) : Memory.Resolves m (memory.insert i v) := by
  intro j w hw
  rw [Std.ExtTreeMap.getElem?_insert] at hw
  split at hw
  · cases hw
    exact hv
  · exact h j w hw

theorem secure_toInt32 (v : Value) : Secure v.toInt32 fun _ => True := by
  cases v with
  | int value => trivial
  | bool value => trivial
  | ptr target => exact id

/-! ## Printing -/

theorem secure_stringOf {v : Value} (hv : v.Resolves m) :
    Secure (stringOf m v) fun _ => True := by
  cases v with
  | int value => exact id
  | bool value => exact id
  | ptr target =>
    cases target with
    | slot id => exact not_false
    | global id => exact not_false
    | str id =>
      obtain ⟨s, hs⟩ := hv
      simp [Secure, stringOf, hs]

theorem secure_convert (c : Char) {v : Value} (hv : v.Resolves m) :
    Secure (convert m c v) fun _ => True := by
  unfold convert
  split
  case h_6 => exact (secure_stringOf hv).bind fun _ _ => trivial
  case h_7 => exact not_false
  all_goals exact (secure_toInt32 v).bind fun _ _ => trivial

theorem secure_format (text : List Char) (args : List Value) (h : ∀ v ∈ args, v.Resolves m) :
    Secure (format m text args) fun _ => True := by
  fun_induction format m text args with
  | case1 => trivial
  | case2 => exact not_false
  | case3 args rest ih => exact (ih h).bind fun _ _ => trivial
  | case4 => exact not_false
  | case5 conversion rest value args hpercent ih =>
    obtain ⟨hvalue, hargs⟩ := List.forall_mem_cons.1 h
    exact (secure_convert conversion hvalue).bind fun _ _ => (ih hargs).bind fun _ _ => trivial
  | case6 c rest args _ _ _ _ ih => exact (ih h).bind fun _ _ => trivial

theorem secure_print {args : List Value} (h : ∀ v ∈ args, v.Resolves m) :
    Secure (print m args) fun _ => True := by
  cases args with
  | nil => exact not_false
  | cons template args =>
    obtain ⟨htemplate, hargs⟩ := List.forall_mem_cons.1 h
    refine (secure_stringOf htemplate).bind fun text _ => ?_
    exact (secure_format text.toList args hargs).bind fun _ _ => trivial

/-! ## Frames -/

/-- Control stands in a checked block and came there from a predecessor, and the pointers that
the function has computed or stored lead somewhere. -/
structure Frame.Sound (m : Module) (f : Frame) : Prop where
  checked : f.body.Checked m
  block : ∃ b, f.body.block? f.block = some b ∧ f.code <:+ b.instrs ∧ f.exit = b.terminator
  cameFrom : ∀ p, f.cameFrom = some p → p ∈ f.body.predecessors f.block
  values : Memory.Resolves m f.values
  slots : Memory.Resolves m f.slots

namespace Frame.Sound

variable {f : Frame} {b : Block}

theorem assign (h : f.Sound m) (result : ValueId) {v : Value} (hv : v.Resolves m) :
    (f.assign result v).Sound m :=
  { h with values := Memory.Resolves.insert h.values result.index hv }

theorem read (h : f.Sound m) {o : Operand} (ho : o.Resolves m) :
    Secure (f.read o) (Value.Resolves m) := by
  cases o with
  | const c => exact Value.resolves_ofConstant c
  | temp id =>
    cases hvalue : f.values[id.index]? with
    | none => simp [Secure, Frame.read, hvalue, Fault.IsDangling]
    | some v => simpa [Secure, Frame.read, hvalue] using h.values id.index v hvalue
  | slot id => trivial
  | global id => exact ho
  | str id => exact ho
  | func name => exact not_false

theorem readInt (h : f.Sound m) {o : Operand} (ho : o.Resolves m) :
    Secure (f.readInt o) fun _ => True :=
  (h.read ho).bind fun v _ => secure_toInt32 v

/-- A phi of the block finds an entry for the block that control came from. -/
theorem incoming (h : f.Sound m) (hb : f.body.block? f.block = some b)
    {result : ValueId} {ty : Ty} {entries : List (Operand × BlockId)}
    (hi : .phi result ty entries ∈ b.instrs) :
    Secure (f.incoming entries) (· ∈ entries.map Prod.fst) := by
  cases hfrom : f.cameFrom with
  | none => simp [Secure, Frame.incoming, hfrom, Fault.IsDangling]
  | some p =>
    have hmem : p ∈ entries.map Prod.snd := by
      refine (h.checked.blocks hb).phis hi p ?_
      rw [h.checked.ids hb]
      exact h.cameFrom p hfrom
    obtain ⟨entry, hentry, rfl⟩ := List.mem_map.1 hmem
    cases hfind : entries.find? fun e => e.2 = entry.2 with
    | none => simpa using List.find?_eq_none.1 hfind entry hentry
    | some found =>
      have hfound : found.1 ∈ entries.map Prod.fst :=
        List.mem_map_of_mem (List.mem_of_find?_eq_some hfind)
      simpa [Secure, Frame.incoming, hfrom, hfind] using hfound

/-- Control goes over an edge of the body. -/
theorem goto (h : f.Sound m) (hb : f.body.block? f.block = some b) {q : BlockId}
    (hq : q ∈ b.successors) : Secure (f.goto q) (Frame.Sound m) := by
  obtain ⟨target, htarget⟩ := (h.checked.blocks hb).targets q hq
  simp only [Frame.goto, enterBlock, htarget]
  refine ⟨h.checked, ⟨target, htarget, List.suffix_refl _, rfl⟩, ?_, h.values, h.slots⟩
  rintro _ ⟨⟩
  exact h.checked.mem_predecessors hb hq

end Frame.Sound

/-- What a call leads to is sound. -/
def Invocation.Sound (m : Module) : Invocation → Prop
  | .entered frame => frame.Sound m
  | .provided _ value => value.Resolves m

/-- A function that exists and takes that many arguments is entered at its entry block. -/
theorem secure_invoke (hm : m.Checked) {name : String} {f : Func} (hf : m.func? name = some f)
    {args : List Value} (haccepts : f.signature.accepts args.length = true)
    (hargs : ∀ v ∈ args, v.Resolves m) : Secure (invoke m name args) (Invocation.Sound m) := by
  simp only [invoke, hf, haccepts, if_true]
  cases hbody : f.body with
  | some body =>
    have hchecked := hm name f body hf hbody
    obtain ⟨b, hb⟩ := hchecked.exists_entry
    simp only [enterBlock, hb]
    exact ⟨hchecked, ⟨b, hb, List.suffix_refl _, rfl⟩, nofun, Memory.resolves_empty,
      Memory.resolves_empty⟩
  | none =>
    by_cases hprint : name = printName
    · simp only [if_pos hprint]
      exact (secure_print hargs).bind fun text _ => trivial
    · simp only [if_neg hprint]
      exact not_false

/-! ## Steps -/

/-- The invariant of a run. -/
structure Config.Sound (m : Module) (c : Config) : Prop where
  frame : c.frame.Sound m
  callers : ∀ caller ∈ c.callers, caller.frame.Sound m
  globals : ∀ v ∈ c.globals, v.Resolves m
  size : c.globals.length = m.globals.size

/-- What a step leads to satisfies the invariant, unless the run is over. -/
def Next.Sound (m : Module) : Next → Prop
  | .running c => c.Sound m
  | .halted _ _ => True

theorem index_lt_of_global? {id : GlobalId} {var : GlobalVar} (h : m.global? id = some var) :
    id.index < m.globals.size := by
  obtain ⟨entry, hentry, -⟩ := Option.map_eq_some_iff.1 h
  exact (List.getElem?_eq_some_iff.1 hentry).1

namespace Config.Sound

variable {c : Config} {b : Block}

theorem assign (h : c.Sound m) (result : ValueId) {v : Value} (hv : v.Resolves m) :
    (c.assign result v).Sound m :=
  { h with frame := h.frame.assign result hv }

theorem load (h : c.Sound m) {address : Value} (ha : address.Resolves m) :
    Secure (c.load address) (Value.Resolves m) := by
  cases address with
  | int value => exact not_false
  | bool value => exact not_false
  | ptr target =>
    cases target with
    | slot id =>
      cases hvalue : c.frame.slots[id.index]? with
      | none => simp [Secure, Config.load, hvalue, Fault.IsDangling]
      | some v => simpa [Secure, Config.load, hvalue] using h.frame.slots id.index v hvalue
    | global id =>
      obtain ⟨var, hvar⟩ := ha
      have hlt : id.index < c.globals.length := h.size ▸ index_lt_of_global? hvar
      have hvalue := List.getElem?_eq_getElem hlt
      simpa [Secure, Config.load, hvalue] using h.globals _ (List.getElem_mem hlt)
    | str id => exact not_false

theorem store (h : c.Sound m) {v : Value} (hv : v.Resolves m) {address : Value}
    (ha : address.Resolves m) : Secure (c.store v address) (Config.Sound m) := by
  cases address with
  | int value => exact not_false
  | bool value => exact not_false
  | ptr target =>
    cases target with
    | slot id =>
      exact { h with
        frame := { h.frame with slots := Memory.Resolves.insert h.frame.slots id.index hv } }
    | global id =>
      obtain ⟨var, hvar⟩ := ha
      have hlt : id.index < c.globals.length := h.size ▸ index_lt_of_global? hvar
      simp only [Config.store, if_pos hlt]
      refine ⟨h.frame, h.callers, fun w hw => ?_, by simp [h.size]⟩
      rcases List.mem_or_eq_of_mem_set hw with hw | rfl
      · exact h.globals w hw
      · exact hv
    | str id => exact not_false

/-- An instruction of a checked block keeps the invariant. -/
theorem execute (hm : m.Checked) (h : c.Sound m) (hb : c.frame.body.block? c.frame.block = some b)
    {i : Instr} (hi : i ∈ b.instrs) : Secure (c.execute m i) (Config.Sound m) := by
  have hchecked := h.frame.checked.blocks hb
  have hoperand : ∀ o ∈ i.operands, o.Resolves m := hchecked.operands i hi
  cases i with
  | alloca slot ty name => exact h
  | load result ty address =>
    refine (h.frame.read (hoperand address (by simp [Instr.operands]))).bind fun a ha => ?_
    exact (h.load ha).bind fun v hv => h.assign result hv
  | store address value =>
    refine (h.frame.read (hoperand value (by simp [Instr.operands]))).bind fun v hv => ?_
    refine (h.frame.read (hoperand address (by simp [Instr.operands]))).bind fun a ha => ?_
    exact h.store hv ha
  | arith result op left right =>
    refine (h.frame.readInt (hoperand left (by simp [Instr.operands]))).bind fun l _ => ?_
    refine (h.frame.readInt (hoperand right (by simp [Instr.operands]))).bind fun r _ => ?_
    cases op.eval? l r with
    | none => exact not_false
    | some value => exact h.assign result trivial
  | compare result cond left right =>
    refine (h.frame.readInt (hoperand left (by simp [Instr.operands]))).bind fun l _ => ?_
    refine (h.frame.readInt (hoperand right (by simp [Instr.operands]))).bind fun r _ => ?_
    exact h.assign result trivial
  | call result callee args =>
    obtain ⟨f, hf, haccepts⟩ := hchecked.calls hi
    have hargs : Secure (args.mapM c.frame.read) fun values =>
        values.length = args.length ∧ ∀ v ∈ values, v.Resolves m :=
      Secure.mapM fun o ho => h.frame.read (hoperand o ho)
    refine hargs.bind fun values hvalues => ?_
    have haccepts : f.signature.accepts values.length = true := hvalues.1 ▸ haccepts
    refine (secure_invoke hm hf haccepts hvalues.2).bind fun invocation hinvocation => ?_
    cases invocation with
    | entered frame =>
      exact ⟨hinvocation, List.forall_mem_cons.2 ⟨h.frame, h.callers⟩, h.globals, h.size⟩
    | provided written value =>
      have hwritten : Config.Sound m { c with output := c.output ++ written } := { h with }
      exact hwritten.assign result hinvocation
  | phi result ty entries =>
    refine (h.frame.incoming hb hi).bind fun o ho => ?_
    refine (h.frame.read (hoperand o ho)).bind fun v hv => ?_
    exact h.assign result hv

theorem goto (h : c.Sound m) (hb : c.frame.body.block? c.frame.block = some b) {q : BlockId}
    (hq : q ∈ b.successors) : Secure (c.goto q) (Next.Sound m) :=
  (h.frame.goto hb hq).bind fun _ hframe => ⟨hframe, h.callers, h.globals, h.size⟩

theorem leave (h : c.Sound m) {result : Option Value}
    (hresult : ∀ v, result = some v → v.Resolves m) : Secure (c.leave result) (Next.Sound m) := by
  unfold Config.leave
  cases hcallers : c.callers with
  | nil => trivial
  | cons caller callers =>
    have hwaiting := h.callers
    rw [hcallers] at hwaiting
    obtain ⟨hcaller, hothers⟩ := List.forall_mem_cons.1 hwaiting
    cases result with
    | none => exact not_false
    | some v =>
      exact ⟨hcaller.assign caller.result (hresult v rfl), hothers, h.globals, h.size⟩

/-- The terminator of a checked block keeps the invariant. -/
theorem terminate (h : c.Sound m) (hb : c.frame.body.block? c.frame.block = some b) :
    Secure (c.terminate b.terminator) (Next.Sound m) := by
  have hchecked := h.frame.checked.blocks hb
  have hoperand := hchecked.exits
  have htarget : ∀ q ∈ b.terminator.successors, Secure (c.goto q) (Next.Sound m) :=
    fun q hq => h.goto hb hq
  cases ht : b.terminator with
  | missing => exact absurd ht hchecked.terminated
  | jump target => exact htarget target (by simp [ht, Terminator.successors])
  | branch condition yes no =>
    refine (h.frame.read (hoperand condition (by simp [ht, Terminator.operands]))).bind
      fun v _ => ?_
    cases v.isTrue with
    | true => exact htarget yes (by simp [ht, Terminator.successors])
    | false => exact htarget no (by simp [ht, Terminator.successors])
  | ret value =>
    cases value with
    | none => exact h.leave (by simp)
    | some value =>
      refine (h.frame.read (hoperand value (by simp [ht, Terminator.operands]))).bind
        fun v hv => h.leave ?_
      rintro _ ⟨⟩
      exact hv

/-- **One step keeps the invariant and does not fail by a dangling fault.** -/
theorem step (hm : m.Checked) (h : c.Sound m) : Secure (c.step m) (Next.Sound m) := by
  obtain ⟨b, hb, hcode, hexit⟩ := h.frame.block
  unfold Config.step
  cases hc : c.frame.code with
  | nil =>
    rw [hexit]
    exact h.terminate hb
  | cons i code =>
    rw [hc] at hcode
    have hrest : code <:+ b.instrs := (List.suffix_cons i code).trans hcode
    have hi : i ∈ b.instrs := hcode.subset (by simp)
    have htaken : Config.Sound m { c with frame := { c.frame with code } } :=
      { h with frame := { h.frame with block := ⟨b, hb, hrest, hexit⟩ } }
    exact (execute hm htaken hb hi).bind fun c' hc' => hc'

end Config.Sound

/-! ## Runs -/

/-- A run goes on without a dangling fault from wherever the invariant holds. -/
theorem Config.Sound.resume (hm : m.Checked) {c : Config} (h : c.Sound m) (limit left : Nat) :
    Secure (resume m limit left c) fun _ => True := by
  induction left generalizing c with
  | zero => exact not_false
  | succ left ih =>
    have hstep := h.step hm
    rw [Machine.resume]
    cases hnext : c.step m with
    | error fault =>
      rw [hnext] at hstep
      exact hstep
    | ok next =>
      rw [hnext] at hstep
      cases next with
      | running c' => exact ih hstep
      | halted result output => trivial

theorem Config.Sound.initial {frame : Frame} (h : frame.Sound m) :
    (Config.initial m frame).Sound m where
  frame := h
  callers := nofun
  globals v hv := by
    obtain ⟨var, -, rfl⟩ := List.mem_map.1 hv
    exact Value.resolves_ofConstant var.initial
  size := by simp [Config.initial, initialGlobals]

/-- **Runs of verified modules do not dangle.** Let a module be built by any operations and pass
the check of all its functions. A run of any function without parameters then comes to no
fault that shows a missing function, block, terminator, phi entry, variable or string or a wrong
number of arguments, whatever the limit and however many blocks and calls it goes through. -/
theorem run_verified (hbuilt : m.Built) (hverify : m.verify = .ok ()) {entry : String} {f : Func}
    (hentry : m.func? entry = some f) (hparams : f.signature.params = []) (limit : Nat) :
    ¬ ∃ fault, fault.IsDangling ∧ run m limit entry = .error fault := by
  have hm := hbuilt.checked hverify
  have haccepts : f.signature.accepts ([] : List Value).length = true := by
    simp [Signature.accepts, hparams]
  have hrun : Secure (run m limit entry) fun _ => True := by
    refine (secure_invoke hm hentry haccepts (by simp)).bind fun invocation hinvocation => ?_
    cases invocation with
    | entered frame => exact (Config.Sound.initial hinvocation).resume hm limit limit
    | provided written value => trivial
  rintro ⟨fault, hdangling, hfault⟩
  rw [hfault] at hrun
  exact hrun hdangling

/-- A function that counts down in a loop and prints by a format that it finds behind a variable.
The store after the cursor went astray fails. -/
def countdown : Builder :=
  (Builder.start ⟨"main", [], .i32, false⟩).after
    [.createBlock "loop", .createBlock "done", .gotoEnd ⟨9⟩, .store (.global ⟨7⟩) (.str ⟨7⟩),
      .switchTo ⟨0⟩, .store (.global ⟨0⟩) (.str ⟨0⟩), .jump ⟨1⟩, .switchTo ⟨1⟩,
      .phi .i32 [(.const (.int 3), ⟨0⟩), (.temp ⟨1⟩, ⟨1⟩)],
      .arith .sub (.temp ⟨0⟩) (.const (.int 1)), .load .bytes (.global ⟨0⟩),
      .call printName [.temp ⟨2⟩, .temp ⟨0⟩], .branch (.temp ⟨1⟩) ⟨1⟩ ⟨2⟩, .switchTo ⟨2⟩,
      .ret (some (.temp ⟨3⟩))]

/-- A module with the function, the print function, the variable and the format. -/
def countdownModule : Module where
  name := "demo"
  globals := Table.empty.insert "format" ⟨⟨0⟩, "format", .i32, .int 0, false, 4⟩
  strings := [⟨⟨0⟩, "%d\n"⟩]
  functions := (Table.empty.insert printName (.declared printSignature)).insert "main"
    ⟨countdown.signature, some countdown.body⟩

theorem built_countdownModule : countdownModule.Built := by
  have hglobal : (Module.empty "demo").addGlobal "format" (.int 0) =
      .ok (⟨0⟩, { Module.empty "demo" with globals := countdownModule.globals }) := rfl
  have hstring := ((Module.Built.empty "demo").addGlobal hglobal).addString "%d\n"
  have hprint := hstring.declare (show Module.declare _ printSignature = .ok _ from rfl)
  have hfinish : countdown.finish = .ok ⟨countdown.signature, some countdown.body⟩ := by rfl
  exact hprint.define hfinish rfl

theorem run_verified_countdown :
    countdownModule.Built ∧ countdownModule.verify = .ok () ∧
      ∃ f, countdownModule.func? "main" = some f ∧ f.signature.params = [] ∧
        ¬ ∃ fault, fault.IsDangling ∧ run countdownModule 100 "main" = .error fault := by
  have hverify : countdownModule.verify = .ok () := by rfl
  exact ⟨built_countdownModule, hverify, _, rfl, rfl,
    run_verified built_countdownModule hverify rfl rfl 100⟩

end SexprSsa.Machine
