/-
SexprSsa.Proofs.Simulation — the machine follows the evaluator.

The machine runs the finished function, while lowering is looked at state by
state. At a state of lowering the machine stands in the block of the cursor,
and what it has not run of the block is what lowering has yet to write
(`Stands`). From there it comes to the next state as the evaluator comes to its
next world (`Arrived`), or it fails as the evaluator does (`Fails`).

The number of steps is bounded on the way: lowering writes at least as many
instructions and terminators as the machine runs, allocations not counted.

Main statements: `Outcome.bind`, `Outcome.put` and `Outcome.compute`, from which
the simulation of every form is put together.
-/
import SexprSsa.Proofs.Agreement
import SexprSsa.Proofs.Steps

namespace SexprSsa

open Machine Direct

/-! ## The finished function -/

/-- A finished function and the module in which it runs. -/
structure Target where
  module : Module
  builder : Builder

namespace Target

/-- The function can be run, and the print function is provided. -/
structure Valid (F : Target) : Prop where
  shaped : F.builder.Shaped
  print : F.module.func? printName = some (.declared printSignature)

/-- What lowering has written so far is part of the finished function. -/
structure Contains (F : Target) (s : LowerState) : Prop where
  flow : s.builder.flow.Within F.builder.flow
  blocks : s.builder.body.nextBlock ≤ F.builder.body.nextBlock
  globals : F.module.globals = s.module.globals
  strings : ∀ {id c}, s.module.string? id = some c → F.module.string? id = some c

variable {F : Target} {pending waiting : List BlockId} {s s' : LowerState}

theorem Contains.of_reaches (hs : s.Sound pending) (h : s.Reaches waiting s')
    (hF : F.Contains s') : F.Contains s where
  flow := (h.builder.within hs.opened).trans hF.flow
  blocks := Nat.le_trans h.builder.blocks hF.blocks
  globals := hF.globals.trans h.module.globals
  strings hc := hF.strings (h.module.string? hc)

theorem Contains.of_leave (hs : s.Sound pending) {join next : BlockId} {layout : List BlockId}
    (hF : F.Contains (s.leave join next layout)) : F.Contains s where
  flow := by
    refine .trans (.close hs.opened.current_open (.jump join)) ?_
    rw [← hs.opened.flow_left join next layout]
    exact hF.flow
  blocks := hF.blocks
  globals := hF.globals
  strings := hF.strings

/-- The machine has just gone to a block of the function. -/
def enter (F : Target) (c : Config) (q : BlockId) : Config :=
  { c with frame := { c.frame with
      body := F.builder.body
      block := q
      code := F.builder.flow.code q
      exit := F.builder.flow.exit q
      cameFrom := some c.frame.block } }

theorem Valid.goto_eq (hF : F.Valid) {c : Config} (hbody : c.frame.body = F.builder.body)
    {q : BlockId} (hq : q.index < F.builder.body.nextBlock) (hne : q ≠ F.builder.body.entry) :
    c.goto q = .ok (.running (F.enter c q)) := by
  obtain ⟨blk, hblk⟩ := hF.shaped.exists_block hq
  have hcode : F.builder.flow.code q = blk.instrs :=
    (Builder.Shaped.code_of_ne_entry hne).trans (Body.code_of_block hblk)
  have hexit : F.builder.flow.exit q = blk.terminator := Body.exit_of_block hblk
  unfold Config.goto Frame.goto enterBlock enter
  rw [hbody, hblk, hcode, hexit]
  rfl

end Target

/-! ## Where control stands -/

/-- The machine stands where lowering stands. -/
structure Stands (F : Target) (b : Builder) (c : Config) : Prop where
  body : c.frame.body = F.builder.body
  block : c.frame.block = b.cursor.block
  code : F.builder.flow.code b.cursor.block = b.flow.code b.cursor.block ++ c.frame.code
  exit : c.frame.exit = F.builder.flow.exit b.cursor.block
  callers : c.callers = []

/-- The machine has taken instructions off its code. -/
def Machine.Config.advance (c : Config) (rest : List Instr) : Config :=
  { c with frame := { c.frame with code := rest } }

namespace Stands

variable {F : Target} {pending : List BlockId} {b b' : Builder} {c c' : Config}

/-- Only the graph and the cursor of the builder matter. -/
theorem of_flow (h : Stands F b c) (hflow : b'.flow = b.flow) (hcursor : b'.cursor = b.cursor) :
    Stands F b' c where
  body := h.body
  block := by
    rw [hcursor]
    exact h.block
  code := by
    rw [hcursor, hflow]
    exact h.code
  exit := by
    rw [hcursor]
    exact h.exit
  callers := h.callers

theorem unmoved (h : Stands F b c) (hc : c.Unmoved c') : Stands F b c' where
  body := hc.body.trans h.body
  block := hc.block.trans h.block
  code := by
    rw [hc.code]
    exact h.code
  exit := hc.exit.trans h.exit
  callers := hc.callers.trans h.callers

/-- The instruction that lowering puts next is the one that the machine runs next. -/
theorem instr (h : Stands F b c) (hb : b.Open pending) {i : Instr}
    (hF : (b.put i).flow.Within F.builder.flow) :
    ∃ rest, c.frame.code = i :: rest ∧ Stands F (b.put i) (c.advance rest) := by
  obtain ⟨rest, hrest⟩ := (hF b.cursor.block).1
  have hput : (b.put i).flow.code b.cursor.block = b.flow.code b.cursor.block ++ [i] := by
    rw [hb.flow_put, Flow.code_append_self]
  refine ⟨rest, ?_, h.body, h.block, hrest.symm, h.exit, h.callers⟩
  rw [h.code, hput, List.append_assoc] at hrest
  exact (List.append_cancel_left hrest).symm

/-- When lowering ends a block, the machine has run its instructions. -/
theorem ended (h : Stands F b c) (hb : b.Open pending) {t : Terminator} (ht : t ≠ .missing)
    (hF : (b.conclude t).flow.Within F.builder.flow) :
    c.frame.code = [] ∧ c.frame.exit = t := by
  have hclose := hb.flow_conclude t
  have hexit : (b.conclude t).flow.exit b.cursor.block = t := by
    rw [hclose, Flow.exit_close_self]
  obtain ⟨hcode, hexit'⟩ := (hF b.cursor.block).2 (by rwa [hexit])
  refine ⟨?_, ?_⟩
  · rw [h.code, hclose, Flow.code_close] at hcode
    simpa using hcode
  · rw [h.exit, hexit', hexit]

/-- The machine enters a block when lowering begins to write it. -/
theorem enter (h : Stands F b c) (hempty : b'.flow.code b'.cursor.block = []) :
    Stands F b' (F.enter c b'.cursor.block) where
  body := rfl
  block := rfl
  code := by
    rw [hempty]
    rfl
  exit := rfl
  callers := h.callers

end Stands

/-! ## Outcomes -/

/-- The machine and the evaluator are at a state of lowering. -/
structure At (F : Target) (s : LowerState) (w : World) (c : Config) : Prop where
  stands : Stands F s.builder c
  scope : Scoped s w
  stores : Stores F.module w c

/-- From one state of lowering the machine has come to another. -/
structure Arrived (F : Target) (s s' : LowerState) (c c' : Config) (w' : World) : Prop
    extends At F s' w' c' where
  /-- What was computed before is kept. -/
  kept : ∀ k, k < s.builder.body.nextValue → c'.frame.values[k]? = c.frame.values[k]?
  steps : ∃ n, Steps F.module n c c' ∧
    n + s.builder.body.work + s'.builder.body.slots.length ≤
      s'.builder.body.work + s.builder.body.slots.length

/-- The machine goes on to a step that fails for the reason given. -/
def Fails (m : Module) (c : Config) (e : Failure) : Prop :=
  ∃ n c' fault, Steps m n c c' ∧ c'.step m = .error fault ∧ e.Explains fault

variable {F : Target} {pending : List BlockId} {s s₁ s' : LowerState} {c c' c₁ : Config}
  {w w' w₁ : World}

theorem Arrived.refl (h : At F s w c) : Arrived F s s c c w :=
  ⟨h, fun _ _ => rfl, 0, .refl, by omega⟩

theorem Arrived.trans (h : Arrived F s s₁ c c₁ w₁) (h' : Arrived F s₁ s' c₁ c' w')
    (hvalues : s.builder.body.nextValue ≤ s₁.builder.body.nextValue) :
    Arrived F s s' c c' w' := by
  obtain ⟨n, hn, hwork⟩ := h.steps
  obtain ⟨k, hk, hwork'⟩ := h'.steps
  refine ⟨h'.toAt, fun j hj => ?_, n + k, hn.trans hk, by omega⟩
  rw [h'.kept j (Nat.lt_of_lt_of_le hj hvalues), h.kept j hj]

theorem Arrived.fails {e : Failure} (h : Arrived F s s' c c' w') (hfails : Fails F.module c' e) :
    Fails F.module c e := by
  obtain ⟨n, hn, -⟩ := h.steps
  obtain ⟨k, c'', fault, hk, hstep, hfault⟩ := hfails
  exact ⟨n + k, c'', fault, hn.trans hk, hstep, hfault⟩

/-- What the evaluator leads to, the machine leads to. The results are related in the frame. -/
def Outcome {β : Type} (F : Target) (s s' : LowerState) (c : Config) (r : Frame → β → Prop) :
    Except Failure (β × World) → Prop
  | .ok (d, w') => ∃ c', Arrived F s s' c c' w' ∧ r c'.frame d
  | .error e => Fails F.module c e

namespace Outcome

variable {β γ : Type} {r : Frame → β → Prop} {r' : Frame → γ → Prop}

/-- Nothing more is done. -/
theorem done {d : β} (h : Arrived F s s' c c' w') (hr : r c'.frame d) :
    Outcome F s s' c r (.ok (d, w')) := ⟨c', h, hr⟩

/-- What happens after an arrival happens. -/
theorem after (h : Arrived F s s₁ c c₁ w₁)
    (hvalues : s.builder.body.nextValue ≤ s₁.builder.body.nextValue)
    {y : Except Failure (β × World)} (hy : Outcome F s₁ s' c₁ r y) : Outcome F s s' c r y := by
  cases y with
  | error e => exact h.fails hy
  | ok p =>
    obtain ⟨c', harrived, hr⟩ := hy
    exact ⟨c', h.trans harrived hvalues, hr⟩

theorem bind {x : Except Failure (β × World)} {g : β × World → Except Failure (γ × World)}
    (h : Outcome F s s₁ c r x)
    (hvalues : s.builder.body.nextValue ≤ s₁.builder.body.nextValue)
    (hg : ∀ d w₁ c₁, Arrived F s s₁ c c₁ w₁ → r c₁.frame d → Outcome F s₁ s' c₁ r' (g (d, w₁))) :
    Outcome F s s' c r' (x >>= g) := by
  cases x with
  | error e => exact h
  | ok p =>
    obtain ⟨d, w₁⟩ := p
    obtain ⟨c₁, harrived, hd⟩ := h
    exact after harrived hvalues (hg d w₁ c₁ harrived hd)

/-- An instruction that follows the evaluator. The builder that takes it may have drawn a value
for it, which is no work. -/
theorem instr {b : Builder} (hb : b.Open pending) (hflow : b.flow = s.builder.flow)
    (hcursor : b.cursor = s.builder.cursor) (hwork : b.body.work = s.builder.body.work)
    (hslots : b.body.slots = s.builder.body.slots) (hat : At F s w c) {i : Instr}
    (hs' : s'.builder = b.put i) (hF : F.Contains s') {y : Except Failure (β × World)}
    (hexecute : ∀ rest, Follows (fun c' p => (c.advance rest).Unmoved c' ∧
      (∀ k, k < s.builder.body.nextValue → c'.frame.values[k]? = c.frame.values[k]?) ∧
      Scoped s' p.2 ∧ Stores F.module p.2 c' ∧ r c'.frame p.1)
        ((c.advance rest).execute F.module i) y) :
    Outcome F s s' c r y := by
  obtain ⟨rest, hcode, hstands⟩ := (hat.stands.of_flow hflow hcursor).instr hb (hs' ▸ hF.flow)
  have hstep : c.step F.module =
      ((c.advance rest).execute F.module i).map fun c' => .running c' := by
    unfold Config.step
    rw [hcode]
    rfl
  have hfollows := hexecute rest
  cases hx : (c.advance rest).execute F.module i with
  | error fault =>
    rw [hx] at hstep hfollows
    cases y with
    | error e => exact ⟨0, c, fault, .refl, hstep, hfollows⟩
    | ok p => exact hfollows.elim
  | ok c' =>
    rw [hx] at hstep hfollows
    cases y with
    | error e => exact hfollows.elim
    | ok p =>
      obtain ⟨hunmoved, hkept, hscope, hstores, hr⟩ := hfollows
      refine ⟨c', ⟨⟨?_, hscope, hstores⟩, hkept, 1, .single hstep, ?_⟩, hr⟩
      · rw [hs']
        exact hstands.unmoved hunmoved
      · have hput := Builder.work_put hb i
        have hkeptSlots : (b.put i).body.slots = b.body.slots := rfl
        rw [hs', hkeptSlots, hslots]
        omega

/-- A store that does to the slots what the evaluator does to its world. -/
theorem store (hs : s.Sound pending) (hat : At F s w c) {address value : Operand}
    (hF : F.Contains (s.put (.store address value))) {d : β} {y : Except Failure World}
    (hexecute : ∀ rest, Follows (fun c' w' => Stored F.module w w' (c.advance rest) c')
      ((c.advance rest).execute F.module (.store address value)) y)
    (hr : ∀ f : Frame, f.values = c.frame.values → r f d) :
    Outcome F s (s.put (.store address value)) c r (do return (d, ← y)) := by
  refine instr (b := s.builder) hs.opened rfl rfl rfl rfl hat rfl hF ?_
  intro rest
  refine (hexecute rest).image ?_
  intro c' w' h
  refine ⟨h.unmoved, fun k _ => ?_, ⟨fun name => ?_, ?_⟩, h.stores, hr _ h.values⟩
  · rw [h.values]
    rfl
  · rw [h.names]
    exact hat.scope.names name
  · rw [h.next]
    exact hat.scope.next

/-- An instruction that computes a value, which the evaluator computes too. -/
theorem compute (hs : s.Sound pending) (hat : At F s w c) {i : ValueId → Instr}
    (hF : F.Contains (s.compute i)) {y : Except Failure (Datum × World)}
    (hexecute : ∀ rest, Follows (fun c' p => ∃ c₁ x,
      c' = c₁.assign ⟨s.builder.body.nextValue⟩ x ∧ (c.advance rest).Unmoved c₁ ∧
      c₁.frame.values = c.frame.values ∧ Scoped s p.2 ∧ Stores F.module p.2 c₁ ∧
      x.datum F.module = some p.1)
        ((c.advance rest).execute F.module (i ⟨s.builder.body.nextValue⟩)) y) :
    Outcome F s (s.compute i) c (fun f d => Denotes F.module f s.nextTemp d) y := by
  refine instr (b := s.builder.draw) hs.opened.draw rfl rfl rfl rfl hat rfl hF ?_
  intro rest
  refine (hexecute rest).weaken ?_
  rintro c' ⟨d, w'⟩ ⟨c₁, x, rfl, hunmoved, hvalues, hscope, hstores, hx⟩
  have hinsert (k : Nat) : (c₁.assign ⟨s.builder.body.nextValue⟩ x).frame.values[k]? =
      if s.builder.body.nextValue = k then some x else c.frame.values[k]? := by
    change (c₁.frame.values.insert _ x)[k]? = _
    rw [hvalues, Std.ExtTreeMap.getElem?_insert]
    simp
  refine ⟨⟨hunmoved.body, hunmoved.block, hunmoved.code, hunmoved.exit, hunmoved.callers⟩, ?_,
    ⟨hscope.names, hscope.next⟩, ⟨hstores.cells, hstores.globals, hstores.output⟩, .inr ⟨x, ?_, hx⟩⟩
  · intro k hk
    rw [hinsert, if_neg (Nat.ne_of_gt hk)]
  · simp only [LowerState.nextTemp, Frame.read, hinsert, if_true]

end Outcome

/-! ## From block to block -/

/-- At the end of a branch the machine jumps to the join. -/
theorem At.step_leave (hF : F.Valid) (hs : s.Sound pending) (hat : At F s w c)
    {join next : BlockId} {layout : List BlockId}
    (hcontains : F.Contains (s.leave join next layout))
    (hjoin : join.index < F.builder.body.nextBlock) (hne : join ≠ F.builder.body.entry) :
    c.step F.module = .ok (.running (F.enter c join)) := by
  obtain ⟨hcode, hexit⟩ := hat.stands.ended hs.opened (t := .jump join) (by rintro ⟨⟩)
    hcontains.flow
  unfold Config.step
  rw [hcode, hexit]
  exact hF.goto_eq hat.stands.body hjoin hne

/-- Before a conditional the machine branches. -/
theorem At.step_fork (hs : s.Sound pending) (hat : At F s w c) {condition : Operand}
    (hcontains : F.Contains (s.fork condition)) :
    c.step F.module = (do
      if (← c.frame.read condition).isTrue then c.goto (s.builder.ahead 0)
      else c.goto (s.builder.ahead 1)) := by
  have hstands := hat.stands.of_flow (Builder.flow_widened hs.opened) rfl
  obtain ⟨hcode, hexit⟩ := hstands.ended hs.opened.widened
    (t := .branch condition (s.builder.ahead 0) (s.builder.ahead 1)) (by rintro ⟨⟩)
    hcontains.flow
  unfold Config.step
  rw [hcode, hexit]
  rfl

/-- A step into a block that lowering begins to write. -/
theorem Arrived.enter (hat : At F s w c)
    (hstep : c.step F.module = .ok (.running (F.enter c s'.current)))
    (hempty : s'.builder.flow.code s'.current = []) (hscope : Scoped s' w')
    (hstores : Stores F.module w' c)
    (hwork : 1 + s.builder.body.work + s'.builder.body.slots.length ≤
      s'.builder.body.work + s.builder.body.slots.length) :
    Arrived F s s' c (F.enter c s'.current) w' where
  stands := hat.stands.enter hempty
  scope := hscope
  stores := ⟨hstores.cells, hstores.globals, hstores.output⟩
  kept _ _ := rfl
  steps := ⟨1, .single hstep, hwork⟩

end SexprSsa
