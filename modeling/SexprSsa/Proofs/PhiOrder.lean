/-
SexprSsa.Proofs.PhiOrder — phis in another order.

Two modules are compared that differ in the order of the phis that blocks start
with (`Module.Rearranged`). The machine whose phis act together comes to the
same states in both, block by block: a row of phis is evaluated as a whole, in
one frame, and what is assigned afterwards depends on which values were kept
back and not on their order (`Simultaneous.resume_phis`, `Memory.record_perm`).
Only a phi without a value is noticed at another time.

Main statement: `phis_act_at_once`. Where no phi takes the result of a phi
before it, the machine that assigns one phi after the other is the machine
whose phis act together, so phis may be put in any order that keeps it so. The
check asks for no such thing, and with phis that exchange two values it makes a
difference (`run_exchange`).
-/
import SexprSsa.Proofs.Coverage
import SexprSsa.Proofs.Simultaneous
import Mathlib.Data.List.Forall2
import Mathlib.Data.List.Pairwise
import Mathlib.Data.List.TakeWhile

namespace SexprSsa

/-! ## Modules whose phis are in another order -/

/-- Code and the same code with phis that it starts with, all of different results, in another
order. -/
inductive Shuffled : List Instr → List Instr → Prop
  | refl (code : List Instr) : Shuffled code code
  | phis {phis phis' rest : List Instr} : phis.Perm phis' → (∀ i ∈ phis, i.isPhi = true) →
      phis.Pairwise (fun i j => i.result? ≠ j.result?) → Shuffled (phis ++ rest) (phis' ++ rest)

/-- A block that starts with the same phis in another order. -/
structure Block.Rearranged (b b' : Block) : Prop where
  instrs : Shuffled b.instrs b'.instrs
  terminator : b'.terminator = b.terminator

/-- A body with the phis of its blocks in another order. -/
structure Body.Rearranged (body body' : Body) : Prop where
  entry : body'.entry = body.entry
  blocks : ∀ q, Option.Rel Block.Rearranged (body.block? q) (body'.block? q)

/-- A function with the phis of its blocks in another order. -/
structure Func.Rearranged (f f' : Func) : Prop where
  signature : f'.signature = f.signature
  body : Option.Rel Body.Rearranged f.body f'.body

/-- A module with the phis of its blocks in another order. -/
structure Module.Rearranged (m m' : Module) : Prop where
  globals : m'.globals = m.globals
  strings : m'.strings = m.strings
  functions : ∀ name, Option.Rel Func.Rearranged (m.func? name) (m'.func? name)

namespace Machine

/-! ## A row of phis -/

/-- What a phi assigns in a frame; there may be no value for it. -/
def Frame.phi? (f : Frame) : Instr → Option (ValueId × Value)
  | .phi result _ entries =>
      match f.incoming entries >>= f.read with
      | .ok value => some (result, value)
      | .error _ => none
  | _ => none

/-- A phi has no value, or the limit comes before that is noticed. -/
def Fault.AtPhi : Fault → Prop
  | .noPredecessor _ | .noIncoming _ _ | .unevaluated _ | .functionAsValue _ | .stepLimit _ => True
  | _ => False

/-- A run gives the same, or both fail because a phi has no value. -/
def SameButPhis (x y : Except Fault Outcome) : Prop :=
  x = y ∨ ∃ fault fault', x = .error fault ∧ y = .error fault' ∧ fault.AtPhi ∧ fault'.AtPhi

theorem Frame.result_of_phi {f : Frame} {i : Instr} {e : ValueId × Value} (h : f.phi? i = some e) :
    i.result? = some e.1 := by
  cases i with
  | phi result ty entries =>
    cases hv : f.incoming entries >>= f.read with
    | error fault =>
      simp only [Frame.phi?, hv] at h
      cases h
    | ok value =>
      simp only [Frame.phi?, hv] at h
      cases h
      rfl
  | _ => cases h

/-- Values are assigned to different numbers in any order. -/
theorem Memory.record_perm {kept kept' : List (ValueId × Value)} (h : kept.Perm kept')
    (hdistinct : kept.Pairwise fun e e' => e.1 ≠ e'.1) (values : Memory) :
    values.record kept = values.record kept' := by
  have : Std.Symm fun e e' : ValueId × Value => e.1 ≠ e'.1 := ⟨fun _ _ hne => hne.symm⟩
  refine h.foldl_eq' (fun e he e' he' values => ?_) values
  by_cases heq : e = e'
  · rw [heq]
  · have hne : e.1.index ≠ e'.1.index := fun hindex =>
      hdistinct.forall he he' heq (congrArg ValueId.mk hindex)
    refine Std.ExtTreeMap.ext_getElem? fun n => ?_
    simp only [Std.ExtTreeMap.getElem?_insert, Nat.compare_eq_eq]
    by_cases hn : e'.1.index = n
    · have hn' : e.1.index ≠ n := hn ▸ hne
      simp [hn, hn']
    · simp [hn]

theorem Memory.record_append_list (values : Memory) (kept more : List (ValueId × Value)) :
    values.record (kept ++ more) = (values.record kept).record more :=
  List.foldl_append

/-- Code starts with a row of phis, which may be empty, and goes on with something else. -/
theorem exists_phis (code : List Instr) : ∃ phis rest, code = phis ++ rest ∧
    (∀ i ∈ phis, i.isPhi = true) ∧ ∀ i ∈ rest.head?, i.isPhi = false := by
  refine ⟨code.takeWhile Instr.isPhi, code.dropWhile Instr.isPhi,
    List.takeWhile_append_dropWhile.symm, fun i hi => List.mem_takeWhile_imp hi, fun i hi => ?_⟩
  have hhead := List.head?_dropWhile_not Instr.isPhi code
  rw [Option.mem_def.1 hi] at hhead
  simpa using hhead

/-- Shuffled code starts with rows of phis that assign the same, and then is the same. -/
theorem exists_split {code code' : List Instr} (h : Shuffled code code') :
    ∃ phis phis' rest, code = phis ++ rest ∧ code' = phis' ++ rest ∧ phis.Perm phis' ∧
      (∀ i ∈ phis, i.isPhi = true) ∧ (∀ i ∈ rest.head?, i.isPhi = false) ∧
      ∀ (f : Frame) (values : Memory),
        values.record (phis.filterMap f.phi?) = values.record (phis'.filterMap f.phi?) := by
  cases h with
  | refl =>
    obtain ⟨phis, rest, rfl, hphis, hrest⟩ := exists_phis code
    exact ⟨phis, phis, rest, rfl, rfl, .refl _, hphis, hrest, fun _ _ => rfl⟩
  | @phis phis phis' code hperm hphis hdistinct =>
    obtain ⟨more, rest, rfl, hmore, hrest⟩ := exists_phis code
    refine ⟨phis ++ more, phis' ++ more, rest, (List.append_assoc ..).symm,
      (List.append_assoc ..).symm, hperm.append_right more, ?_, hrest, fun f values => ?_⟩
    · exact List.forall_mem_append.2 ⟨hphis, hmore⟩
    · have hkept : (phis.filterMap f.phi?).Pairwise fun e e' => e.1 ≠ e'.1 := by
        refine hdistinct.filterMap _ fun i j hne e he e' he' heq => hne ?_
        rw [Frame.result_of_phi he, Frame.result_of_phi he', heq]
      rw [List.filterMap_append, List.filterMap_append, Memory.record_append_list,
        Memory.record_append_list, Memory.record_perm (hperm.filterMap _) hkept]

namespace Simultaneous

/-- The state past some phis, whose values are kept back. -/
def past (s : Simultaneous) (code : List Instr) (values : List (ValueId × Value)) : Simultaneous :=
  ⟨{ s.config with frame := { s.config.frame with code } }, s.kept ++ values⟩

variable {m : Module} {s : Simultaneous} {i : Instr} {code phis rest : List Instr}

@[simp] theorem phi?_past (values : List (ValueId × Value)) :
    (s.past code values).config.frame.phi? = s.config.frame.phi? := rfl

@[simp] theorem past_past (values more : List (ValueId × Value)) :
    (s.past code values).past rest more = s.past rest (values ++ more) := by
  simp [past]

/-- A phi is kept back, or the machine stops because it has no value. -/
theorem ends_phi (hcode : s.config.frame.code = i :: code) (hphi : i.isPhi = true) :
    Ends (s.step m)
      (fun next => ∃ e, s.config.frame.phi? i = some e ∧ next = .running (s.past code [e]))
      (fun fault => s.config.frame.phi? i = none ∧ fault.AtPhi) := by
  cases i with
  | phi result ty entries =>
    have hincoming : Ends (s.config.frame.incoming entries) (fun _ => True) Fault.AtPhi := by
      unfold Frame.incoming
      split
      · trivial
      · split <;> trivial
    have hread (o : Operand) : Ends (s.config.frame.read o) (fun _ => True) Fault.AtPhi := by
      cases o with
      | temp id =>
        unfold Frame.read
        dsimp only
        split <;> trivial
      | _ => trivial
    have hvalue := hincoming.bind fun o _ _ => hread o
    rw [step_of_phi m hcode, ← bind_assoc]
    cases hv : s.config.frame.incoming entries >>= s.config.frame.read with
    | error fault => exact ⟨by simp only [Frame.phi?, hv], hvalue.error hv⟩
    | ok value => exact ⟨_, by simp only [Frame.phi?, hv], rfl⟩
  | _ => cases hphi

/-- A row of phis that all have values is kept back as a whole. -/
theorem resume_phis (hphis : ∀ i ∈ phis, i.isPhi = true)
    (hcode : s.config.frame.code = phis ++ rest)
    (hvalues : ∀ i ∈ phis, s.config.frame.phi? i ≠ none) (limit left : Nat) :
    resume m limit left s = if left < phis.length then .error (.stepLimit limit) else
      resume m limit (left - phis.length)
        (s.past rest (phis.filterMap s.config.frame.phi?)) := by
  induction phis generalizing s left with
  | nil =>
    rw [List.nil_append] at hcode
    simp [past, ← hcode]
  | cons i phis ih =>
    obtain ⟨hphi, hphis⟩ := List.forall_mem_cons.1 hphis
    obtain ⟨hvalue, hvalues⟩ := List.forall_mem_cons.1 hvalues
    cases left with
    | zero => rfl
    | succ left =>
      have hstep := ends_phi (m := m) hcode hphi
      cases hs : s.step m with
      | error fault => exact absurd (hstep.error hs).1 hvalue
      | ok next =>
        obtain ⟨e, he, rfl⟩ := hstep.ok hs
        have hrest := ih (s := s.past (phis ++ rest) [e]) hphis rfl hvalues left
        rw [resume, hs]
        simpa [he] using hrest

/-- A row of phis one of which has no value is not gone past. -/
theorem resume_phis_error (hphis : ∀ i ∈ phis, i.isPhi = true)
    (hcode : s.config.frame.code = phis ++ rest) (hi : i ∈ phis)
    (hnone : s.config.frame.phi? i = none) (limit left : Nat) :
    ∃ fault, resume m limit left s = .error fault ∧ fault.AtPhi := by
  induction phis generalizing s left with
  | nil => cases hi
  | cons j phis ih =>
    obtain ⟨hphi, hphis⟩ := List.forall_mem_cons.1 hphis
    cases left with
    | zero => exact ⟨_, rfl, trivial⟩
    | succ left =>
      have hstep := ends_phi (m := m) hcode hphi
      cases hs : s.step m with
      | error fault =>
        refine ⟨fault, ?_, (hstep.error hs).2⟩
        rw [resume, hs]
      | ok next =>
        obtain ⟨e, he, rfl⟩ := hstep.ok hs
        rw [resume, hs]
        rcases List.mem_cons.1 hi with rfl | hi
        · rw [hnone] at he
          cases he
        · exact ih (s := s.past (phis ++ rest) [e]) hphis rfl hi hnone left

end Simultaneous

/-! ## Frames that differ in the order of phis -/

/-- A frame and one that differs from it in the order of phis. -/
def Frame.Mirrors (f f' : Frame) : Prop :=
  ∃ body code, f' = { f with body, code } ∧ f.body.Rearranged body ∧ Shuffled f.code code

/-- A function that waits and one whose frame differs in the order of phis. -/
def Suspended.Mirrors (s s' : Suspended) : Prop :=
  ∃ frame, s' = { s with frame } ∧ s.frame.Mirrors frame

/-- A state of the machine and one whose frames differ in the order of phis. -/
def Config.Mirrors (c c' : Config) : Prop :=
  ∃ frame callers, c' = { c with frame, callers } ∧ c.frame.Mirrors frame ∧
    List.Forall₂ Suspended.Mirrors c.callers callers

/-- What a step leads to in the two machines. -/
def Next.Mirrors : Next → Next → Prop
  | .running c, .running c' => c.Mirrors c'
  | .halted result output, .halted result' output' => result = result' ∧ output = output'
  | _, _ => False

/-- What a call leads to in the two machines. -/
def Invocation.Mirrors : Invocation → Invocation → Prop
  | .entered f, .entered f' => f.Mirrors f'
  | .provided written value, .provided written' value' => written = written' ∧ value = value'
  | _, _ => False

namespace Frame.Mirrors

variable {f f' : Frame}

theorem read (h : f.Mirrors f') : f'.read = f.read := by
  obtain ⟨body, code, rfl, -, -⟩ := h
  funext o
  cases o <;> rfl

theorem readInt (h : f.Mirrors f') : f'.readInt = f.readInt := by
  funext o
  simp only [Frame.readInt, h.read]

theorem incoming (h : f.Mirrors f') : f'.incoming = f.incoming := by
  obtain ⟨body, code, rfl, -, -⟩ := h
  rfl

theorem exit (h : f.Mirrors f') : f'.exit = f.exit := by
  obtain ⟨body, code, rfl, -, -⟩ := h
  rfl

theorem code (h : f.Mirrors f') : Shuffled f.code f'.code := by
  obtain ⟨body, code, rfl, -, hcode⟩ := h
  exact hcode

theorem phi? (h : f.Mirrors f') : f'.phi? = f.phi? := by
  funext i
  cases i with
  | phi result ty entries => simp only [Frame.phi?, h.incoming, h.read]
  | _ => rfl

theorem assign (h : f.Mirrors f') (result : ValueId) (value : Value) :
    (f.assign result value).Mirrors (f'.assign result value) := by
  obtain ⟨body, code, rfl, hbody, hcode⟩ := h
  exact ⟨body, code, rfl, hbody, hcode⟩

/-- Blocks are entered alike. -/
theorem enterBlock {body body' : Body} (h : body.Rearranged body') (cameFrom : Option BlockId)
    (values slots : Memory) (q : BlockId) :
    Alike Frame.Mirrors (Machine.enterBlock body cameFrom values slots q)
      (Machine.enterBlock body' cameFrom values slots q) := by
  have hq := h.blocks q
  unfold Machine.enterBlock
  generalize body.block? q = b at hq ⊢
  generalize body'.block? q = b' at hq ⊢
  cases hq with
  | none => rfl
  | @some b b' hblock =>
    obtain ⟨id, name, instrs, terminator⟩ := b'
    obtain ⟨hinstrs, rfl⟩ := hblock
    exact ⟨body', instrs, rfl, h, hinstrs⟩

theorem goto (h : f.Mirrors f') (q : BlockId) : Alike Frame.Mirrors (f.goto q) (f'.goto q) := by
  obtain ⟨body, code, rfl, hbody, -⟩ := h
  exact enterBlock hbody (some f.block) f.values f.slots q

end Frame.Mirrors

/-! ## Calls -/

variable {m m' : Module}

theorem print_eq_of_strings (h : m'.strings = m.strings) : print m' = print m := by
  have hstring : stringOf m' = stringOf m := by
    funext v
    simp only [stringOf, Module.string?, h]
  have hconvert : convert m' = convert m := by
    funext c v
    simp only [convert, hstring]
  have hformat (text : List Char) (args : List Value) :
      format m' text args = format m text args := by
    fun_induction format m text args with
    | case1 => rfl
    | case2 => rfl
    | case3 args rest ih => simp only [format, ih]
    | case4 conversion rest hpercent => simp_all [format]
    | case5 conversion rest value args hpercent ih => simp only [format, hconvert, ih]
    | case6 c rest args _ _ _ _ ih => simp_all [format]
  funext args
  cases args with
  | nil => rfl
  | cons template args => simp only [print, hstring, hformat]

/-- Functions are called alike. -/
theorem invoke_alike (hm : m.Rearranged m') (name : String) (args : List Value) :
    Alike Invocation.Mirrors (invoke m name args) (invoke m' name args) := by
  have hf := hm.functions name
  unfold Machine.invoke
  rw [print_eq_of_strings hm.strings]
  generalize m.func? name = f at hf ⊢
  generalize m'.func? name = f' at hf ⊢
  cases hf with
  | none => rfl
  | @some f f' hf =>
    obtain ⟨signature', body'⟩ := f'
    obtain ⟨rfl, hbody⟩ := hf
    dsimp only at hbody ⊢
    split
    · obtain ⟨signature, body⟩ := f
      cases hbody with
      | none =>
        dsimp only
        split
        · exact (Alike.refl _).bind fun text _ _ _ heq => ⟨heq, congrArg printResult heq⟩
        · rfl
      | some hbody =>
        dsimp only
        rw [hbody.entry]
        exact (Frame.Mirrors.enterBlock hbody none ∅ ∅ _).bind fun f f' _ _ hframe => hframe
    · rfl

/-! ## Steps -/

namespace Config.Mirrors

variable {c c' : Config}

theorem frame (h : c.Mirrors c') : c.frame.Mirrors c'.frame := by
  obtain ⟨frame, callers, rfl, hframe, -⟩ := h
  exact hframe

theorem assign (h : c.Mirrors c') (result : ValueId) (value : Value) :
    (c.assign result value).Mirrors (c'.assign result value) := by
  obtain ⟨frame, callers, rfl, hframe, hcallers⟩ := h
  exact ⟨_, callers, rfl, hframe.assign result value, hcallers⟩

theorem load (h : c.Mirrors c') : c'.load = c.load := by
  obtain ⟨frame, callers, rfl, ⟨body, code, rfl, -, -⟩, -⟩ := h
  rfl

theorem store (h : c.Mirrors c') (value address : Value) :
    Alike Config.Mirrors (c.store value address) (c'.store value address) := by
  obtain ⟨frame, callers, rfl, ⟨body, code, rfl, hbody, hcode⟩, hcallers⟩ := h
  unfold Config.store
  split
  · exact ⟨_, callers, rfl, ⟨body, code, rfl, hbody, hcode⟩, hcallers⟩
  · dsimp only
    split
    · exact ⟨_, callers, rfl, ⟨body, code, rfl, hbody, hcode⟩, hcallers⟩
    · rfl
  · rfl

/-- Instructions run alike. -/
theorem execute (hm : m.Rearranged m') (h : c.Mirrors c') (i : Instr) :
    Alike Config.Mirrors (c.execute m i) (c'.execute m' i) := by
  have hframe := h.frame
  cases i with
  | alloca slot ty name => exact h
  | load result ty address =>
    simp only [Config.execute, hframe.read, h.load]
    refine (Alike.refl _).bind fun a _ _ _ heq => heq ▸ ?_
    exact (Alike.refl _).bind fun v _ _ _ heq => heq ▸ h.assign result v
  | store address value =>
    simp only [Config.execute, hframe.read]
    refine (Alike.refl _).bind fun v _ _ _ heq => heq ▸ ?_
    exact (Alike.refl _).bind fun a _ _ _ heq => heq ▸ h.store v a
  | arith result op left right =>
    simp only [Config.execute, hframe.readInt]
    refine (Alike.refl _).bind fun l _ _ _ heq => heq ▸ ?_
    refine (Alike.refl _).bind fun r _ _ _ heq => heq ▸ ?_
    cases op.eval? l r with
    | none => rfl
    | some value => exact h.assign result (.int value)
  | compare result cond left right =>
    simp only [Config.execute, hframe.readInt]
    refine (Alike.refl _).bind fun l _ _ _ heq => heq ▸ ?_
    exact (Alike.refl _).bind fun r _ _ _ heq => heq ▸ h.assign result _
  | call result callee args =>
    simp only [Config.execute, hframe.read]
    refine (Alike.refl _).bind fun values _ _ _ heq => heq ▸ ?_
    refine (invoke_alike hm callee values).bind fun invocation invocation' _ _ hinvocation => ?_
    cases invocation with
    | entered f =>
      cases invocation' with
      | entered f' =>
        obtain ⟨frame, callers, rfl, hwaiting, hcallers⟩ := h
        exact ⟨f', _, rfl, hinvocation, .cons ⟨frame, rfl, hwaiting⟩ hcallers⟩
      | provided => exact hinvocation.elim
    | provided written value =>
      cases invocation' with
      | entered => exact hinvocation.elim
      | provided written' value' =>
        obtain ⟨rfl, rfl⟩ := hinvocation
        obtain ⟨frame, callers, rfl, hwaiting, hcallers⟩ := h
        exact ⟨_, callers, rfl, hwaiting.assign result value, hcallers⟩
  | phi result ty entries =>
    simp only [Config.execute, hframe.read, hframe.incoming]
    refine (Alike.refl _).bind fun o _ _ _ heq => heq ▸ ?_
    exact (Alike.refl _).bind fun v _ _ _ heq => heq ▸ h.assign result v

theorem goto (h : c.Mirrors c') (q : BlockId) : Alike Next.Mirrors (c.goto q) (c'.goto q) := by
  obtain ⟨frame, callers, rfl, hframe, hcallers⟩ := h
  exact (hframe.goto q).bind fun f f' _ _ hf => ⟨f', callers, rfl, hf, hcallers⟩

theorem leave (h : c.Mirrors c') (result : Option Value) :
    Alike Next.Mirrors (c.leave result) (c'.leave result) := by
  obtain ⟨frame, callers, rfl, -, hcallers⟩ := h
  obtain ⟨running, waiting, globals, output⟩ := c
  unfold Config.leave
  cases hcallers with
  | nil => exact ⟨rfl, rfl⟩
  | cons hcaller hcallers =>
    obtain ⟨_, rfl, hwaiting⟩ := hcaller
    cases result with
    | none => rfl
    | some value => exact ⟨_, _, rfl, hwaiting.assign _ value, hcallers⟩

/-- Terminators run alike. -/
theorem terminate (h : c.Mirrors c') (t : Terminator) :
    Alike Next.Mirrors (c.terminate t) (c'.terminate t) := by
  have hread := h.frame.read
  cases t with
  | missing =>
    obtain ⟨frame, callers, rfl, ⟨body, code, rfl, -, -⟩, -⟩ := h
    rfl
  | jump target => exact h.goto target
  | branch condition yes no =>
    simp only [Config.terminate, hread]
    refine (Alike.refl _).bind fun v _ _ _ heq => heq ▸ ?_
    cases v.isTrue with
    | true => exact h.goto yes
    | false => exact h.goto no
  | ret value =>
    cases value with
    | none => exact h.leave none
    | some value =>
      simp only [Config.terminate, hread]
      exact (Alike.refl _).bind fun v _ _ _ heq => heq ▸ h.leave (some v)

/-- States with the same code before them go on alike. -/
theorem step (hm : m.Rearranged m') (h : c.Mirrors c') (hcode : c'.frame.code = c.frame.code) :
    Alike Next.Mirrors (c.step m) (c'.step m') := by
  unfold Config.step
  rw [hcode, h.frame.exit]
  split
  · next i code _ =>
    have hrest : Config.Mirrors { c with frame := { c.frame with code } }
        { c' with frame := { c'.frame with code } } := by
      obtain ⟨frame, callers, rfl, ⟨body, _, rfl, hbody, -⟩, hcallers⟩ := h
      exact ⟨_, callers, rfl, ⟨body, code, rfl, hbody, .refl code⟩, hcallers⟩
    exact (hrest.execute hm i).bind fun d d' _ _ hd => hd
  · exact h.terminate c.frame.exit

end Config.Mirrors

/-! ## Runs -/

namespace Simultaneous

/-- Two states with values kept back that are the same once they are assigned, and with the same
code before them. -/
theorem mirrors_record {c c' : Config} (h : c.Mirrors c') {phis phis' : List Instr}
    (hrecord : ∀ (f : Frame) (values : Memory),
      values.record (phis.filterMap f.phi?) = values.record (phis'.filterMap f.phi?))
    (rest : List Instr) : Config.Mirrors
      (Config.record { c with frame := { c.frame with code := rest } }
        (phis.filterMap c.frame.phi?))
      (Config.record { c' with frame := { c'.frame with code := rest } }
        (phis'.filterMap c'.frame.phi?)) := by
  obtain ⟨frame, callers, rfl, hframe, hcallers⟩ := h
  rw [hframe.phi?, Config.record, Config.record, hrecord]
  obtain ⟨body, code, rfl, hbody, -⟩ := hframe
  exact ⟨_, callers, rfl, ⟨body, rest, rfl, hbody, .refl rest⟩, hcallers⟩

/-- Where no phi comes next, both machines go on alike if they do so afterwards. -/
theorem resume_plain {limit left : Nat} {s s' : Simultaneous}
    (hplain : ∀ i ∈ s.config.frame.code.head?, i.isPhi = false)
    (hplain' : ∀ i ∈ s'.config.frame.code.head?, i.isPhi = false)
    (hstep : Alike Next.Mirrors ((s.config.record s.kept).step m)
      ((s'.config.record s'.kept).step m'))
    (hafter : ∀ c c' : Config, c.Mirrors c' →
      SameButPhis (resume m limit left ⟨c, []⟩) (resume m' limit left ⟨c', []⟩)) :
    SameButPhis (resume m limit (left + 1) s) (resume m' limit (left + 1) s') := by
  have hno {code : List Instr} (h : ∀ i ∈ code.head?, i.isPhi = false) (result : ValueId) (ty : Ty)
      (entries : List (Operand × BlockId)) (rest : List Instr) :
      code ≠ .phi result ty entries :: rest := by
    rintro rfl
    cases h _ rfl
  rw [resume, resume, step_of_plain m (hno hplain), step_of_plain m' (hno hplain')]
  rcases hstep.ends with ⟨fault, hx, hy⟩ | ⟨next, next', hx, hy, hnext⟩
  · rw [hx, hy]
    exact .inl rfl
  · rw [hx, hy]
    cases next with
    | running c =>
      cases next' with
      | running c' => exact hafter c c' hnext
      | halted result output => exact hnext.elim
    | halted result output =>
      cases next' with
      | running c' => exact hnext.elim
      | halted result' output' =>
        obtain ⟨rfl, rfl⟩ := hnext
        exact .inl rfl

/-- The machine whose phis act together goes on alike, but for phis without a value. -/
theorem resume_mirrors (hm : m.Rearranged m') (limit : Nat) {left : Nat} {c c' : Config}
    (h : c.Mirrors c') :
    SameButPhis (resume m limit left ⟨c, []⟩) (resume m' limit left ⟨c', []⟩) := by
  -- a row of phis and the instruction after it are one step of the induction
  induction left using Nat.strong_induction_on generalizing c c' with
  | _ left ih =>
    have hphi := h.frame.phi?
    obtain ⟨phis, phis', rest, hcode, hcode', hperm, hphis, hrest, hrecord⟩ :=
      exists_split h.frame.code
    have hphis' : ∀ i ∈ phis', i.isPhi = true := fun i hi => hphis i (hperm.mem_iff.2 hi)
    by_cases hlacks : ∃ i ∈ phis, c.frame.phi? i = none
    · obtain ⟨i, hi, hnone⟩ := hlacks
      obtain ⟨fault, hfault, hat⟩ :=
        resume_phis_error (m := m) (s := ⟨c, []⟩) hphis hcode hi hnone limit left
      obtain ⟨fault', hfault', hat'⟩ :=
        resume_phis_error (m := m') (s := ⟨c', []⟩) hphis' hcode' (hperm.mem_iff.1 hi)
          (hphi ▸ hnone) limit left
      exact .inr ⟨fault, fault', hfault, hfault', hat, hat'⟩
    · have hvalues : ∀ i ∈ phis, c.frame.phi? i ≠ none := fun i hi hnone => hlacks ⟨i, hi, hnone⟩
      have hvalues' : ∀ i ∈ phis', c'.frame.phi? i ≠ none := fun i hi =>
        hphi ▸ hvalues i (hperm.mem_iff.2 hi)
      rw [resume_phis (s := ⟨c, []⟩) hphis hcode hvalues,
        resume_phis (s := ⟨c', []⟩) hphis' hcode' hvalues', ← hperm.length_eq]
      by_cases hleft : left < phis.length
      · rw [if_pos hleft, if_pos hleft]
        exact .inl rfl
      · rw [if_neg hleft, if_neg hleft]
        cases hk : left - phis.length with
        | zero => exact .inl rfl
        | succ k =>
          have hmirrors := mirrors_record h hrecord rest
          exact resume_plain hrest hrest (hmirrors.step hm rfl) fun c c' h => ih k (by omega) h

/-- **The order of phis that act together does not matter.** Runs of a module and of one whose
phis are in another order give the same, unless a phi has no value; then both fail. -/
theorem run_rearranged (hm : m.Rearranged m') (limit : Nat) (entry : String) :
    SameButPhis (run m limit entry) (run m' limit entry) := by
  unfold run
  rcases (invoke_alike hm entry []).ends with ⟨fault, hx, hy⟩ | ⟨a, b, hx, hy, hinvocation⟩
  · rw [hx, hy]
    -- without what would follow, in which the modules differ
    change SameButPhis (.error fault) (.error fault)
    exact .inl rfl
  · rw [hx, hy]
    cases a with
    | entered f =>
      cases b with
      | entered f' =>
        refine resume_mirrors hm limit ⟨f', [], ?_, hinvocation, .nil⟩
        simp only [Config.initial, initialGlobals, hm.globals]
      | provided => exact hinvocation.elim
    | provided written value =>
      cases b with
      | entered => exact hinvocation.elim
      | provided written' value' =>
        obtain ⟨rfl, rfl⟩ := hinvocation
        change SameButPhis (.ok ⟨some value, written, 0⟩) (.ok ⟨some value, written, 0⟩)
        exact .inl rfl

end Simultaneous

/-- **Where no phi takes the result of a phi before it, the phis of a block act as if at once.**
Every run gives what the machine gives whose phis act together: the same result, output and steps,
or the same fault. So phis may be put in another order if still no phi takes the result of one
before it: every run gives the same, unless a phi has no value; then both runs fail. -/
theorem phis_act_at_once (hm : m.PhisApart) :
    (∀ limit entry, run m limit entry = Simultaneous.run m limit entry) ∧
    ∀ m', m.Rearranged m' → m'.PhisApart → ∀ limit entry,
      SameButPhis (run m limit entry) (run m' limit entry) := by
  refine ⟨run_eq_simultaneous hm, fun m' hrearranged hm' limit entry => ?_⟩
  rw [run_eq_simultaneous hm, run_eq_simultaneous hm']
  exact Simultaneous.run_rearranged hrearranged limit entry

/-- A function with one loop. -/
def loopBody (instrs : List Instr) (condition result : ValueId) : Body where
  entry := ⟨0⟩
  blocks := ((Table.empty.insert ⟨0⟩ ⟨⟨0⟩, "entry", [], .jump ⟨1⟩⟩).insert ⟨1⟩
    ⟨⟨1⟩, "loop", instrs, .branch (.temp condition) ⟨1⟩ ⟨2⟩⟩).insert ⟨2⟩
    ⟨⟨2⟩, "done", [], .ret (some (.temp result))⟩
  layout := [⟨0⟩, ⟨1⟩, ⟨2⟩]
  slots := []
  nextBlock := 3
  nextValue := 5

/-- Adds up the numbers from three down to one. -/
def addUp (phis : List Instr) : Module :=
  soleModule (loopBody (phis ++ [.arith ⟨2⟩ .add (.temp ⟨0⟩) (.temp ⟨1⟩),
    .arith ⟨3⟩ .sub (.temp ⟨1⟩) (.const (.int 1))]) ⟨3⟩ ⟨2⟩)

/-- The phis of the sum and of the next number. -/
def sumPhis : List Instr :=
  [.phi ⟨0⟩ .i32 [(.const (.int 0), ⟨0⟩), (.temp ⟨2⟩, ⟨1⟩)],
    .phi ⟨1⟩ .i32 [(.const (.int 3), ⟨0⟩), (.temp ⟨3⟩, ⟨1⟩)]]

/-- Exchanges two values twice, or as often as a third phi counts. -/
def exchange (phis : List Instr) : Module :=
  soleModule (loopBody (phis ++ [.phi ⟨2⟩ .i32 [(.const (.int 0), ⟨0⟩), (.temp ⟨3⟩, ⟨1⟩)],
    .arith ⟨3⟩ .add (.temp ⟨2⟩) (.const (.int 1)),
    .compare ⟨4⟩ .lt (.temp ⟨3⟩) (.const (.int 2))]) ⟨4⟩ ⟨1⟩)

/-- Two phis each of which takes the result of the other. -/
def swapPhis : List Instr :=
  [.phi ⟨0⟩ .i32 [(.const (.int 1), ⟨0⟩), (.temp ⟨1⟩, ⟨1⟩)],
    .phi ⟨1⟩ .i32 [(.const (.int 2), ⟨0⟩), (.temp ⟨0⟩, ⟨1⟩)]]

theorem phisApart_loop {instrs : List Instr} {condition result : ValueId}
    (h : Block.PhisApart ⟨⟨1⟩, "loop", instrs, .branch (.temp condition) ⟨1⟩ ⟨2⟩⟩) :
    (soleModule (loopBody instrs condition result)).PhisApart := by
  intro name f body hf hbody q b hb
  obtain rfl := eq_of_soleModule hf hbody
  unfold Body.block? loopBody at hb
  rw [Table.find?_insert, Table.find?_insert, Table.find?_insert] at hb
  split at hb
  · cases hb
    exact .nil
  · split at hb
    · cases hb
      exact h
    · split at hb
      · cases hb
        exact .nil
      · cases hb

theorem rearranged_loop {instrs instrs' : List Instr} (h : Shuffled instrs instrs')
    (condition result : ValueId) :
    (soleModule (loopBody instrs condition result)).Rearranged
      (soleModule (loopBody instrs' condition result)) := by
  refine ⟨rfl, rfl, fun name => ?_⟩
  unfold Module.func? soleModule
  rw [Table.find?_insert, Table.find?_insert]
  split
  · refine .some ⟨rfl, .some ⟨rfl, fun q => ?_⟩⟩
    unfold Body.block? loopBody
    simp only [Table.find?_insert]
    split
    · exact .some ⟨.refl _, rfl⟩
    · split
      · exact .some ⟨h, rfl⟩
      · split
        · exact .some ⟨.refl _, rfl⟩
        · exact .none
  · exact .none

theorem phis_act_at_once_sum : (addUp sumPhis).PhisApart ∧
    (∀ limit entry,
      run (addUp sumPhis) limit entry = Simultaneous.run (addUp sumPhis) limit entry) ∧
    ∀ limit entry,
      SameButPhis (run (addUp sumPhis) limit entry) (run (addUp sumPhis.reverse) limit entry) := by
  have hapart : (addUp sumPhis).PhisApart := phisApart_loop (by
    unfold Block.PhisApart
    decide)
  have hapart' : (addUp sumPhis.reverse).PhisApart := phisApart_loop (by
    unfold Block.PhisApart
    decide)
  have hrearranged : (addUp sumPhis).Rearranged (addUp sumPhis.reverse) :=
    rearranged_loop (.phis (List.reverse_perm _).symm (by decide) (by decide)) _ _
  exact ⟨hapart, (phis_act_at_once hapart).1, (phis_act_at_once hapart).2 _ hrearranged hapart'⟩

/-- The check passes a module in which phis exchange two values. The machine loses one of them,
which it does not if the phis act together, nor in the other order. -/
theorem run_exchange : (exchange swapPhis).verify = .ok () ∧
    run (exchange swapPhis) 100 "main" = .ok ⟨some (.int 2), "", 14⟩ ∧
    Simultaneous.run (exchange swapPhis) 100 "main" = .ok ⟨some (.int 1), "", 14⟩ ∧
    run (exchange swapPhis.reverse) 100 "main" = .ok ⟨some (.int 1), "", 14⟩ :=
  ⟨by rfl, by decide +kernel, by decide +kernel, by decide +kernel⟩

end Machine

end SexprSsa
