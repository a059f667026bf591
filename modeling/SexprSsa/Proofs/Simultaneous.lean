/-
SexprSsa.Proofs.Simultaneous — phis that act all at once.

In static single assignment form the phis of a block have no order: when
control comes to the block, all of them read what there was at the end of the
predecessor, and then all of them have their values. `Simultaneous.run` is the
machine with this rule. It counts steps like the other one and differs in
phis only: a phi that has been evaluated keeps its value back, and the values
that were kept back are assigned together before the first instruction that is
no phi.

The machine of `run` assigns the value of each phi before it looks at the next
one. Main statement: `run_eq_simultaneous`, the two machines agree, in results,
output, steps and faults, on every module in which no phi takes the result of a
phi before it in its block (`Module.PhisApart`).
-/
import SexprSsa.Proofs.Control

namespace SexprSsa

/-! ## Phis apart -/

/-- No phi takes the result of a phi before it. -/
def Block.PhisApart (b : Block) : Prop :=
  b.instrs.Pairwise fun i j =>
    i.isPhi = true → j.isPhi = true → ∀ v ∈ i.result?, .temp v ∉ j.operands

/-- In every block of every function no phi takes the result of a phi before it. -/
def Module.PhisApart (m : Module) : Prop :=
  ∀ name f body, m.func? name = some f → f.body = some body →
    ∀ q b, body.block? q = some b → b.PhisApart

namespace Machine

/-! ## The machine -/

/-- Values assigned one after the other. -/
def Memory.record (values : Memory) (kept : List (ValueId × Value)) : Memory :=
  kept.foldl (fun values e => values.insert e.1.index e.2) values

/-- Values assigned in the running function. -/
def Config.record (c : Config) (kept : List (ValueId × Value)) : Config :=
  { c with frame := { c.frame with values := c.frame.values.record kept } }

/-- A state of the machine whose phis act together: the values of the phis that have been
evaluated since control came to the block are kept back. -/
structure Simultaneous where
  config : Config
  kept : List (ValueId × Value)

namespace Simultaneous

/-- What a step leads to. -/
inductive Next where
  | running (state : Simultaneous)
  | halted (result : Option Value) (output : String)

/-- Evaluates the next phi and keeps its value back; if none is left, assigns what was kept back
and goes on like the other machine. -/
def step (m : Module) (s : Simultaneous) : Except Fault Next :=
  match s.config.frame.code with
  | .phi result _ entries :: code => do
      let value ← s.config.frame.read (← s.config.frame.incoming entries)
      return .running ⟨{ s.config with frame := { s.config.frame with code } },
        s.kept ++ [(result, value)]⟩
  | _ => do
      match ← (s.config.record s.kept).step m with
      | .running c => return .running ⟨c, []⟩
      | .halted result output => return .halted result output

/-- Goes on for as many steps as are left of a limit. -/
def resume (m : Module) (limit : Nat) : Nat → Simultaneous → Except Fault Outcome
  | 0, _ => .error (.stepLimit limit)
  | left + 1, s =>
      match s.step m with
      | .error fault => .error fault
      | .ok (.running s) => resume m limit left s
      | .ok (.halted result output) => .ok ⟨result, output, limit - left⟩

/-- Runs a function of a module. -/
def run (m : Module) (limit : Nat) (entry : String) : Except Fault Outcome := do
  match ← invoke m entry [] with
  | .entered frame => resume m limit limit ⟨.initial m frame, []⟩
  | .provided written value => return ⟨some value, written, 0⟩

end Simultaneous

/-! ## Steps by kind -/

section
variable (m : Module) {c : Config} {s : Simultaneous} {result : ValueId} {ty : Ty}
  {entries : List (Operand × BlockId)} {code : List Instr}

theorem Config.step_of_phi (hcode : c.frame.code = .phi result ty entries :: code) :
    c.step m = (do
      let o ← c.frame.incoming entries
      let v ← c.frame.read o
      return .running (Config.assign { c with frame := { c.frame with code } } result v)) := by
  simp only [Config.step, hcode, Config.execute, bind_assoc, pure_bind]
  rfl

theorem Simultaneous.step_of_phi
    (hcode : s.config.frame.code = .phi result ty entries :: code) :
    s.step m = (do
      let o ← s.config.frame.incoming entries
      let v ← s.config.frame.read o
      return .running ⟨{ s.config with frame := { s.config.frame with code } },
        s.kept ++ [(result, v)]⟩) := by
  simp only [Simultaneous.step, hcode]

theorem Simultaneous.step_of_plain
    (hcode : ∀ result ty entries code, s.config.frame.code ≠ .phi result ty entries :: code) :
    s.step m = (do
      match ← (s.config.record s.kept).step m with
      | .running c => return .running ⟨c, []⟩
      | .halted result output => return .halted result output) := by
  unfold Simultaneous.step
  split
  · next hphi => exact absurd hphi (hcode _ _ _ _)
  · rfl

end

/-! ## Computations that go alike -/

section
variable {α β α' β' : Type}

/-- Two computations succeed with related results or fail by the same fault. -/
def Alike (r : α → β → Prop) : Except Fault α → Except Fault β → Prop
  | .ok a, .ok b => r a b
  | .error fault, .error fault' => fault = fault'
  | _, _ => False

theorem Alike.bind {r : α → β → Prop} {r' : α' → β' → Prop} {x : Except Fault α}
    {y : Except Fault β} {f : α → Except Fault α'} {g : β → Except Fault β'} (h : Alike r x y)
    (hf : ∀ a b, x = .ok a → y = .ok b → r a b → Alike r' (f a) (g b)) :
    Alike r' (x >>= f) (y >>= g) := by
  cases x with
  | ok a =>
    cases y with
    | ok b => exact hf a b rfl rfl h
    | error fault => exact h.elim
  | error fault =>
    cases y with
    | ok b => exact h.elim
    | error fault' => exact h

theorem Alike.refl (x : Except Fault α) : Alike Eq x x := by
  cases x <;> rfl

/-- Both computations fail or both succeed. -/
theorem Alike.ends {r : α → β → Prop} {x : Except Fault α} {y : Except Fault β}
    (h : Alike r x y) :
    (∃ fault, x = .error fault ∧ y = .error fault) ∨ ∃ a b, x = .ok a ∧ y = .ok b ∧ r a b := by
  cases x with
  | error fault =>
    cases y with
    | error fault' => exact .inl ⟨fault, rfl, congrArg Except.error h.symm⟩
    | ok b => exact h.elim
  | ok a =>
    cases y with
    | error fault => exact h.elim
    | ok b => exact .inr ⟨a, b, rfl, rfl, h⟩

end

/-! ## Reading with values kept back -/

theorem Memory.record_append (values : Memory) (kept : List (ValueId × Value)) (v : ValueId)
    (value : Value) :
    values.record (kept ++ [(v, value)]) = (values.record kept).insert v.index value := by
  simp [Memory.record]

theorem Memory.getElem?_record {kept : List (ValueId × Value)} {v : ValueId}
    (h : ∀ e ∈ kept, e.1 ≠ v) (values : Memory) :
    (values.record kept)[v.index]? = values[v.index]? := by
  induction kept generalizing values with
  | nil => rfl
  | cons e kept ih =>
    obtain ⟨hne, hrest⟩ := List.forall_mem_cons.1 h
    have hindex : e.1.index ≠ v.index := fun heq => hne (congrArg ValueId.mk heq)
    refine (ih hrest _).trans ?_
    rw [Std.ExtTreeMap.getElem?_insert, if_neg]
    simpa using hindex

/-- An operand that is none of the values kept back reads the same without them. -/
theorem Frame.read_record {kept : List (ValueId × Value)} {o : Operand}
    (h : ∀ e ∈ kept, o ≠ .temp e.1) (f : Frame) :
    Frame.read { f with values := f.values.record kept } o = f.read o := by
  cases o with
  | temp v =>
    have hkept : ∀ e ∈ kept, e.1 ≠ v := fun e he heq => h e he (heq ▸ rfl)
    unfold Frame.read
    dsimp only
    rw [Memory.getElem?_record hkept]
  | const value => rfl
  | slot id => rfl
  | global id => rfl
  | str id => rfl
  | func name => rfl

/-- The operand that a phi takes is one of its operands. -/
theorem Frame.mem_of_incoming {f : Frame} {entries : List (Operand × BlockId)} {o : Operand}
    (h : f.incoming entries = .ok o) : o ∈ entries.map Prod.fst := by
  unfold Frame.incoming at h
  split at h
  · cases h
  · split at h
    · next entry hfind =>
      cases h
      exact List.mem_map_of_mem (List.mem_of_find?_eq_some hfind)
    · cases h

/-! ## The two machines -/

variable {m : Module}

/-- The machines are in the same state, up to the values that are kept back. These are of phis
that stand before the rest of the code. -/
structure Agrees (m : Module) (c : Config) (s : Simultaneous) : Prop where
  recorded : c = s.config.record s.kept
  frames : c.Frames (Frame.Within m)
  kept : ∃ b before, s.config.frame.body.block? s.config.frame.block = some b ∧
    b.instrs = before ++ s.config.frame.code ∧
    ∀ e ∈ s.kept, ∃ i ∈ before, i.isPhi = true ∧ i.result? = some e.1

/-- The machines go on in the same state, or both are at the end of the run. -/
def NextAgrees (m : Module) : Next → Simultaneous.Next → Prop
  | .running c, .running s => Agrees m c s
  | .halted result output, .halted result' output' => result = result' ∧ output = output'
  | _, _ => False

namespace Agrees

variable {c : Config} {s : Simultaneous}

/-- Nothing is kept back. -/
theorem of_frames (h : c.Frames (Frame.Within m)) : Agrees m c ⟨c, []⟩ := by
  obtain ⟨b, hb, ⟨before, hbefore⟩, -⟩ := h.1.block
  exact ⟨rfl, h, b, before, hb, hbefore.symm, by simp⟩

/-- A phi reads the same with and without the values of the phis before it. -/
theorem read_phi (hm : m.PhisApart) (h : Agrees m c s) {result : ValueId} {ty : Ty}
    {entries : List (Operand × BlockId)} {code : List Instr}
    (hcode : s.config.frame.code = .phi result ty entries :: code) {o : Operand}
    (ho : o ∈ entries.map Prod.fst) : c.frame.read o = s.config.frame.read o := by
  obtain ⟨b, before, hb, hinstrs, hkept⟩ := h.kept
  obtain ⟨name, g, hg, hbody⟩ := h.frames.1.func
  rw [h.recorded] at hbody ⊢
  have hapart : b.PhisApart := hm name g _ hg hbody _ b hb
  refine Frame.read_record (fun e he heq => ?_) s.config.frame
  obtain ⟨i, hi, hphi, hresult⟩ := hkept e he
  rw [Block.PhisApart, hinstrs, hcode, List.pairwise_append] at hapart
  refine hapart.2.2 i hi _ List.mem_cons_self hphi rfl e.1 hresult ?_
  exact heq ▸ ho

/-- A phi is evaluated alike and either assigned or kept back. -/
theorem step_phi (hm : m.PhisApart) (h : Agrees m c s) {result : ValueId} {ty : Ty}
    {entries : List (Operand × BlockId)} {code : List Instr}
    (hcode : s.config.frame.code = .phi result ty entries :: code) :
    Alike (NextAgrees m) (c.step m) (s.step m) := by
  have hcode' : c.frame.code = .phi result ty entries :: code := by
    rw [h.recorded]
    exact hcode
  have hincoming : c.frame.incoming entries = s.config.frame.incoming entries := by
    rw [h.recorded]
    rfl
  rw [Config.step_of_phi m hcode', Simultaneous.step_of_phi m hcode, hincoming]
  refine (Alike.refl _).bind fun o _ ho _ heq => ?_
  subst heq
  rw [h.read_phi hm hcode (Frame.mem_of_incoming ho)]
  refine (Alike.refl _).bind fun v _ _ _ heq => ?_
  subst heq
  have hframes : Config.Frames (Frame.Within m)
      (Config.assign { c with frame := { c.frame with code } } result v) :=
    (Frame.Within.kept m).moves h.frames (.on hcode' rfl rfl)
  obtain ⟨b, before, hb, hinstrs, hkept⟩ := h.kept
  refine ⟨?_, hframes, b, before ++ [.phi result ty entries], hb, by simp [hinstrs, hcode], ?_⟩
  · rw [h.recorded]
    simp only [Config.record, Config.assign, Frame.assign, Memory.record_append]
  · intro e he
    rcases List.mem_append.1 he with he | he
    · obtain ⟨i, hi, hphi, hresult⟩ := hkept e he
      exact ⟨i, List.mem_append_left _ hi, hphi, hresult⟩
    · rw [List.mem_singleton.1 he]
      exact ⟨_, List.mem_append_right _ List.mem_cons_self, rfl, rfl⟩

/-- An instruction that is no phi, or a terminator, finds all values assigned. -/
theorem step_plain (h : Agrees m c s)
    (hcode : ∀ result ty entries code, s.config.frame.code ≠ .phi result ty entries :: code) :
    Alike (NextAgrees m) (c.step m) (s.step m) := by
  rw [Simultaneous.step_of_plain m hcode, ← h.recorded]
  cases hstep : c.step m with
  | error fault => rfl
  | ok next =>
    cases next with
    | running c' => exact of_frames ((Frame.Within.kept m).moves h.frames (Config.step_moves hstep))
    | halted result output => exact ⟨rfl, rfl⟩

/-- One step of the two machines. -/
theorem step (hm : m.PhisApart) (h : Agrees m c s) :
    Alike (NextAgrees m) (c.step m) (s.step m) := by
  by_cases hphi : ∃ result ty entries code, s.config.frame.code = .phi result ty entries :: code
  · obtain ⟨result, ty, entries, code, hcode⟩ := hphi
    exact h.step_phi hm hcode
  · exact h.step_plain fun result ty entries code hcode =>
      hphi ⟨result, ty, entries, code, hcode⟩

/-- Runs of the two machines. -/
theorem resume (hm : m.PhisApart) (h : Agrees m c s) (limit left : Nat) :
    Machine.resume m limit left c = Simultaneous.resume m limit left s := by
  induction left generalizing c s with
  | zero => rfl
  | succ left ih =>
    rw [Machine.resume, Simultaneous.resume]
    rcases (h.step hm).ends with ⟨fault, hc, hs⟩ | ⟨next, next', hc, hs, hnext⟩
    · rw [hc, hs]
    · rw [hc, hs]
      cases next with
      | running c' =>
        cases next' with
        | running s' => exact ih hnext
        | halted result output => exact hnext.elim
      | halted result output =>
        cases next' with
        | running s' => exact hnext.elim
        | halted result' output' =>
          obtain ⟨rfl, rfl⟩ := hnext
          rfl

end Agrees

/-- **Where no phi takes the result of a phi before it, phis act as if at once.** Every run gives
what the machine gives whose phis act together: the same result, output and steps, or the same
fault, whatever the limit. -/
theorem run_eq_simultaneous (hm : m.PhisApart) (limit : Nat) (entry : String) :
    run m limit entry = Simultaneous.run m limit entry := by
  unfold run Simultaneous.run
  cases hinvoke : invoke m entry [] with
  | error fault => rfl
  | ok invocation =>
    cases invocation with
    | provided written value => rfl
    | entered frame =>
      have hframes : (Config.initial m frame).Frames (Frame.Within m) :=
        Visits.frames (Frame.Within.kept m) ⟨frame, hinvoke, .refl⟩
      exact (Agrees.of_frames hframes).resume hm limit limit

end Machine

end SexprSsa
