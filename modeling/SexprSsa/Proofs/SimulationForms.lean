/-
SexprSsa.Proofs.SimulationForms — the simulation, form by form.

A branch of a conditional that is not taken is passed over by the machine and
yet lowered, so what it does to the names and the slots has to be matched by
the evaluator (`passForm_scope`). Everything else is an outcome for each rule
of lowering.

Main statement: `Form.simulates`. From a state of lowering at which machine and
evaluator agree, the machine leads to what the evaluator leads to.
-/
import SexprSsa.Proofs.Simulation

namespace SexprSsa

open Machine Direct

variable {F : Target} {pending : List BlockId} {s s' : LowerState} {c : Config} {w w' : World}

/-! ## Passing over a branch -/

/-- A change of the builder that adds no slot is no change of scope. -/
theorem Scoped.of_eq (h : Scoped s w) (hscopes : s'.scopes = s.scopes)
    (hslots : s'.builder.body.slots = s.builder.body.slots) : Scoped s' w where
  names := by
    rw [hscopes]
    exact h.names
  next := by
    rw [hslots]
    exact h.next

theorem Scoped.fork (h : Scoped s w) (condition : Operand) : Scoped (s.fork condition) w :=
  h.of_eq rfl rfl

theorem Scoped.leave (h : Scoped s w) (join next : BlockId) (layout : List BlockId) :
    Scoped (s.leave join next layout) w := h.of_eq rfl rfl

theorem Scoped.inner (h : Scoped s w) : Scoped s.inner w where
  names name := by
    rw [h.names name]
    exact congrArg _ (Scopes.lookup?_push s.scopes name).symm
  next := h.next

/-- A new variable gets the next cell. -/
theorem Scoped.reserve (h : Scoped s w) (name : String) (ty : Ty) :
    Scoped (s.withVariable name ty) (w.reserve name) where
  names other := by
    change (if other = name then some (.cell w.next) else w.names other) =
      ((s.scopes.define name (.slot s.nextSlot ty)).lookup? other).map Binding.place
    rw [Scopes.lookup?_define, h.next]
    by_cases hother : other = name
    · rw [if_pos hother, if_pos hother]
      rfl
    · rw [if_neg hother, if_neg hother]
      exact h.names other
  next := by
    change w.next + 1 = (s.builder.body.slots ++ [s.builder.nextSlot name ty]).length
    rw [h.next]
    simp

/-- The names after a scope are those from before. -/
theorem Scoped.outer (h : Scoped s w) {w' : World} (h' : Scoped s' w') :
    Scoped { s' with scopes := s.scopes } { w' with names := w.names } where
  names := h.names
  next := h'.next

mutual

/-- Passing over a form does to the names what lowering it does. -/
theorem passForm_scope {pending : List BlockId} {s s' : LowerState} {v : Operand} {w : World} :
    (f : Form) → Lowered pending f s v s' → Scoped s w → Scoped s' (passForm f w)
  | .number _, h, hw => by
    cases h
    exact hw
  | .truth _, h, hw => by
    cases h
    exact hw
  | .text _, h, hw => by
    cases h
    exact hw.of_eq rfl rfl
  | .reference _, h, hw => by
    cases h with
    | value _ => exact hw
    | load _ _ => exact hw.of_eq rfl rfl
  | .arith _ left right, h, hw => by
    cases h with
    | arith hleft hright =>
      exact (passForm_scope right hright (passForm_scope left hleft hw)).of_eq rfl rfl
  | .compare _ left right, h, hw => by
    cases h with
    | compare hleft hright =>
      exact (passForm_scope right hright (passForm_scope left hleft hw)).of_eq rfl rfl
  | .declare name ty init, h, hw => by
    cases h with
    | declare hinit => exact ((passForm_scope init hinit hw).reserve name ty).of_eq rfl rfl
  | .assign _ value, h, hw => by
    cases h with
    | assign hvalue _ _ => exact (passForm_scope value hvalue hw).of_eq rfl rfl
  | .block first rest, h, hw => by
    cases h with
    | block hfirst hrest =>
      exact hw.outer (passForms_scope rest hrest (passForm_scope first hfirst hw.inner))
  | .print template args, h, hw => by
    cases h with
    | print htemplate hargs =>
      exact (passForms_scope args hargs (passForm_scope template htemplate hw)).of_eq rfl rfl
  | .choose condition yes no, h, hw => by
    cases h with
    | choose hcondition hyes _ hno _ =>
      have hfirst := passForm_scope yes hyes ((passForm_scope condition hcondition hw).fork _)
      exact (passForm_scope no hno (hfirst.leave ..)).of_eq rfl rfl
  | .malformed _, h, hw => by cases h

theorem passForms_scope {pending : List BlockId} {s s' : LowerState} {values : List Operand}
    {w : World} : (forms : List Form) → LoweredAll pending forms s values s' → Scoped s w →
      Scoped s' (passForms forms w)
  | [], h, hw => by
    cases h
    exact hw
  | f :: rest, h, hw => by
    cases h with
    | cons hf hrest => exact passForms_scope rest hrest (passForm_scope f hf hw)

end

/-- Passing over a form leaves the stores alone. -/
theorem passForm_stores {m : Module} (h : Stores m w c) (f : Form) : Stores m (passForm f w) c where
  cells := by
    rw [(passForm_kept f w).cells]
    exact h.cells
  globals := by
    rw [(passForm_kept f w).globals]
    exact h.globals
  output := h.output.trans (passForm_kept f w).output.symm

/-! ## Operands that are usable -/

theorem LowerState.Sound.temp_lt (hs : s.Sound pending) {v : Operand} (hv : v.Usable s) :
    ∀ x, v = .temp x → x.index < s.builder.body.nextValue := by
  rintro x rfl
  obtain ⟨q, hq⟩ := hv.known
  exact hs.sound.drawn hq

/-- Scopes are opened and closed in no step. -/
theorem Arrived.rescope (hat : At F s w c) {scopes : Scopes} (hscope : Scoped { s with scopes } w')
    (hworld : w' = { w with names := w'.names }) :
    Arrived F s { s with scopes } c c w' where
  stands := hat.stands
  scope := hscope
  stores := by
    rw [hworld]
    exact ⟨hat.stores.cells, hat.stores.globals, hat.stores.output⟩
  kept _ _ := rfl
  steps := ⟨0, .refl, by simp only [Nat.zero_add]; exact Nat.le_refl _⟩

/-- What an operand denotes it denotes until the machine has come to another state. -/
theorem Arrived.keep {c' : Config} {w' : World} (h : Arrived F s s' c c' w')
    (hs : s.Sound pending) {v : Operand} (hv : v.Usable s) {d : Datum}
    (hd : Denotes F.module c.frame v d) : Denotes F.module c'.frame v d :=
  hd.keep (hs.temp_lt hv) h.kept

theorem Target.Contains.global_lt (hF : F.Contains s) {v : Operand} (hv : v.Usable s) :
    ∀ id, v = .global id → id.index < F.module.globals.size := by
  rintro id rfl
  have hknown : (s.module.global? id).isSome := hv.known
  rw [hF.globals]
  unfold Module.global? Table.at? at hknown
  rw [Option.isSome_map, Option.isSome_iff_exists] at hknown
  obtain ⟨e, he⟩ := hknown
  exact (List.getElem?_eq_some_iff.1 he).1

theorem Target.Contains.of_eq (hF : F.Contains s')
    (hbuilder : s.builder.flow.Within s'.builder.flow)
    (hblocks : s.builder.body.nextBlock = s'.builder.body.nextBlock)
    (hmodule : s.module = s'.module) : F.Contains s where
  flow := hbuilder.trans hF.flow
  blocks := hblocks ▸ hF.blocks
  globals := hmodule ▸ hF.globals
  strings hc := hF.strings (hmodule ▸ hc)

theorem Target.Contains.of_scopes {scopes : Scopes} (hF : F.Contains { s with scopes }) :
    F.Contains s := ⟨hF.flow, hF.blocks, hF.globals, hF.strings⟩

/-- An instruction does not have to be written yet for what came before it to be contained. -/
theorem Target.Contains.of_put (hs : s.Sound pending) {i : Instr} (hF : F.Contains (s.put i)) :
    F.Contains s := by
  refine hF.of_eq ?_ rfl rfl
  change s.builder.flow.Within (s.builder.put i).flow
  rw [hs.opened.flow_put]
  exact .append hs.opened.current_open i

theorem Target.Contains.of_compute (hs : s.Sound pending) {i : ValueId → Instr}
    (hF : F.Contains (s.compute i)) : F.Contains s := by
  refine hF.of_eq ?_ rfl rfl
  change s.builder.flow.Within (s.builder.putValue i).flow
  rw [hs.opened.flow_putValue]
  exact .append hs.opened.current_open _

theorem Stores.advance {m : Module} (h : Stores m w c) (rest : List Instr) :
    Stores m w (c.advance rest) := ⟨h.cells, h.globals, h.output⟩

theorem At.lookup (hat : At F s w c) {name : String} {binding : Binding}
    (hname : s.scopes.lookup? name = some binding) : w.names name = some binding.place := by
  rw [hat.scope.names, hname]
  rfl

/-- The value of a sequence is that of its last part. -/
theorem denotes_getLastD {m : Module} {f : Frame} {v : Operand} {d : Datum}
    {values : List Operand} {ds : List Datum} (hd : Denotes m f v d)
    (h : List.Forall₂ (Denotes m f) values ds) :
    Denotes m f (values.getLastD v) (ds.getLastD d) := by
  induction h generalizing v d with
  | nil => exact hd
  | cons hhead _ ih =>
    rw [List.getLastD_cons, List.getLastD_cons]
    exact ih hhead

/-! ## Single instructions -/

section
variable {a b : Operand} {d d' : Datum}

theorem Outcome.reference_value (hat : At F s w c) {name : String}
    (hname : s.scopes.lookup? name = some (.value a)) (ha : ∃ f, a = .func f) :
    Outcome F s s c (fun f d => Denotes F.module f a d)
      (evalForm .lexical (.reference name) w) := by
  obtain ⟨f, rfl⟩ := ha
  have hvalue : w.value name = .ok .function := by
    simp only [World.value, hat.lookup hname, Binding.place]
  simp only [evalForm, hvalue]
  exact .done (.refl hat) (.inl ⟨f, rfl, rfl⟩)

/-- An instruction that computes a value and does nothing else. -/
theorem Outcome.compute_value (hs : s.Sound pending) (hat : At F s w c) {i : ValueId → Instr}
    (hF : F.Contains (s.compute i)) {x : Except Fault Value} {y : Except Failure Datum}
    (hexecute : ∀ rest r, (c.advance rest).execute F.module (i r) =
      (do return (c.advance rest).assign r (← x)))
    (hfollows : Follows (fun x d => x.datum F.module = some d) x y) :
    Outcome F s (s.compute i) c (fun f d => Denotes F.module f s.nextTemp d)
      (do return (← y, w)) := by
  refine .compute hs hat hF ?_
  intro rest
  rw [hexecute]
  refine (hfollows.preimage fun v d hv => ?_).image fun c' d h => h
  exact ⟨c.advance rest, v, rfl, ⟨rfl, rfl, rfl, rfl, rfl⟩, rfl, hat.scope,
    hat.stores.advance rest, hv⟩

theorem Outcome.reference_load (hs : s.Sound pending) (hat : At F s w c) {name : String}
    {binding : Binding} {address : Operand} {ty : Ty}
    (hF : F.Contains (s.compute (.load · ty address)))
    (hname : s.scopes.lookup? name = some binding)
    (haddress : binding.address? = some (address, ty)) :
    Outcome F s (s.compute (.load · ty address)) c (fun f d => Denotes F.module f s.nextTemp d)
      (evalForm .lexical (.reference name) w) := by
  simp only [evalForm]
  refine .compute_value hs hat hF (fun rest r => ?_) (hat.stores.load (hat.lookup hname) haddress
    ((hF.of_compute hs).global_lt (hs.address hname haddress)))
  rw [bind_assoc]
  rfl

theorem Outcome.arith (hs : s.Sound pending) (hat : At F s w c) {op : ArithOp}
    (hF : F.Contains (s.compute (.arith · op a b))) (ha : Denotes F.module c.frame a d)
    (hb : Denotes F.module c.frame b d') :
    Outcome F s (s.compute (.arith · op a b)) c (fun f d => Denotes F.module f s.nextTemp d)
      (do return (← calculate op (← d.number) (← d'.number), w)) := by
  let x : Except Fault Value := do
    (op.eval? (← c.frame.readInt a) (← c.frame.readInt b)).elim (throw .divisionByZero)
      fun value => return .int value
  have hfollows : Follows (fun x d => x.datum F.module = some d) x
      (do calculate op (← d.number) (← d'.number)) := by
    refine ha.readInt.bind fun l l' hl => hb.readInt.bind fun r r' hr => ?_
    subst hl hr
    unfold calculate
    cases op.eval? l r with
    | some value => exact rfl
    | none => exact trivial
  have hvalue := compute_value hs hat hF (x := x) (fun rest r => ?_) hfollows
  · simpa only [bind_assoc] using hvalue
  · simp only [x, bind_assoc]
    refine congrArg _ (funext fun l => congrArg _ (funext fun r' => ?_))
    cases op.eval? l r' <;> rfl

theorem Outcome.compare (hs : s.Sound pending) (hat : At F s w c) {cond : Cond}
    (hF : F.Contains (s.compute (.compare · cond a b))) (ha : Denotes F.module c.frame a d)
    (hb : Denotes F.module c.frame b d') :
    Outcome F s (s.compute (.compare · cond a b)) c (fun f d => Denotes F.module f s.nextTemp d)
      (do return (.bool (cond.holds (← d.number).toUInt32 (← d'.number).toUInt32), w)) := by
  let x : Except Fault Value := do
    return .bool (cond.holds (← c.frame.readInt a).toUInt32 (← c.frame.readInt b).toUInt32)
  have hfollows : Follows (fun x d => x.datum F.module = some d) x
      (do return .bool (cond.holds (← d.number).toUInt32 (← d'.number).toUInt32)) := by
    refine ha.readInt.bind fun l l' hl => hb.readInt.bind fun r r' hr => ?_
    subst hl hr
    exact rfl
  have hvalue := compute_value hs hat hF (x := x) (fun rest r => ?_) hfollows
  · simpa only [bind_assoc, pure_bind] using hvalue
  · simp only [x, bind_assoc, pure_bind]
    rfl

/-- A phi takes the value of the block that control came from. -/
theorem Outcome.phi (hs : s.Sound pending) (hat : At F s w c) {ty : Ty}
    {entries : List (Operand × BlockId)} (hF : F.Contains (s.compute (.phi · ty entries)))
    {source : BlockId} (hcame : c.frame.cameFrom = some source) {entry : Operand × BlockId}
    (hfind : (entries.find? fun e => e.2 = source) = some entry)
    (hd : Denotes F.module c.frame entry.1 d) :
    Outcome F s (s.compute (.phi · ty entries)) c (fun f d => Denotes F.module f s.nextTemp d)
      (do return (← d.use, w)) := by
  refine .compute_value hs hat hF (fun rest r => ?_) (hd.read.weaken fun x d' hx => ?_)
  · have hincoming : (c.advance rest).frame.incoming entries = .ok entry.1 := by
      have hcame' : (c.advance rest).frame.cameFrom = some source := hcame
      simp only [Frame.incoming, hcame', hfind]
    simp only [Config.execute, hincoming]
    rfl
  · obtain ⟨rfl, hx⟩ := hx
    exact hx

theorem invoke_print (hF : F.Valid) (x : Value) (xs : List Value) :
    invoke F.module printName (x :: xs) = do
      let text ← print F.module (x :: xs)
      return .provided text (printResult text) := by
  have haccepts : printSignature.accepts (x :: xs).length = true := by
    simp [Signature.accepts, printSignature]
  simp only [invoke, hF.print, Func.declared, haccepts, if_true]

/-- A call of the print function. -/
theorem Outcome.call (hvalid : F.Valid) (hs : s.Sound pending) (hat : At F s w c)
    {values : List Operand} {ds : List Datum}
    (hF : F.Contains (s.compute (.call · printName (a :: values))))
    (ha : Denotes F.module c.frame a d)
    (hvalues : List.Forall₂ (Denotes F.module c.frame) values ds) :
    Outcome F s (s.compute (.call · printName (a :: values))) c
      (fun f d => Denotes F.module f s.nextTemp d) (do
        let text ← printed d ds
        return (.int (wrap text.utf8ByteSize), { w with output := w.output ++ text })) := by
  refine .compute hs hat hF ?_
  intro rest
  have hexecute : (c.advance rest).execute F.module
      (.call ⟨s.builder.body.nextValue⟩ printName (a :: values)) = (do
        let text ← (a :: values).mapM c.frame.read >>= print F.module
        return ({ c.advance rest with output := c.output ++ text } : Config).assign
          ⟨s.builder.body.nextValue⟩ (printResult text)) := by
    simp only [Config.execute, List.mapM_cons, bind_assoc, pure_bind]
    refine congrArg _ (funext fun x => congrArg _ (funext fun xs => ?_))
    rw [invoke_print hvalid]
    simp only [bind_assoc, pure_bind]
    rfl
  rw [hexecute]
  refine (follows_print ha hvalues).bind ?_
  intro text text' htext
  subst htext
  refine ⟨{ c.advance rest with output := c.output ++ text }, printResult text, rfl,
    ⟨rfl, rfl, rfl, rfl, rfl⟩, rfl, ⟨hat.scope.names, hat.scope.next⟩, ?_, ?_⟩
  · refine ⟨hat.stores.cells, hat.stores.globals, ?_⟩
    rw [← hat.stores.output]
  · change some (Datum.int (Int32.ofNat _)) = some (Datum.int (Int32.ofInt _))
    rfl

/-- A new variable is a slot with its first value. -/
theorem Outcome.declare (hs : s.Sound pending) (hat : At F s w c) {name : String} {ty : Ty}
    (hF : F.Contains ((s.withVariable name ty).put (.store (.slot s.nextSlot) a)))
    (husable : a.Usable s) (ha : Denotes F.module c.frame a d) :
    Outcome F s ((s.withVariable name ty).put (.store (.slot s.nextSlot) a)) c
      (fun f d => Denotes F.module f a d) (do return (d, ← w.declare name d)) := by
  have hvariable := hs.withVariable name ty
  have hat' : At F (s.withVariable name ty) (w.reserve name) c :=
    { stands := hat.stands.of_flow (Builder.flow_addVariable hs.opened.toShaped name ty) rfl
      scope := hat.scope.reserve name ty
      stores := ⟨hat.stores.cells, hat.stores.globals, hat.stores.output⟩ }
  have harrived : Arrived F s (s.withVariable name ty) c c (w.reserve name) := by
    refine ⟨hat', fun _ _ => rfl, 0, .refl, ?_⟩
    have hwork := Builder.work_addVariable hs.opened.toShaped name ty
    have hslots : (s.withVariable name ty).builder.body.slots.length =
        s.builder.body.slots.length + 1 := by
      change (s.builder.body.slots ++ [s.builder.nextSlot name ty]).length = _
      simp
    change 0 + s.builder.body.work + _ ≤ (s.builder.addVariable name ty).body.work + _
    omega
  refine .after harrived (Nat.le_refl _) (.store hvariable.sound hat' hF (fun rest => ?_) ?_)
  · have hslot := (hat'.stores.advance rest).store_slot (m := F.module) (v := a) (d := d)
      ha w.next
    rw [hat.scope.next] at hslot
    unfold World.declare
    rw [hat.scope.next]
    exact hslot
  · intro f hf
    exact ha.keep (hs.temp_lt husable) fun k _ => by rw [hf]

/-- An assignment is a store to the address of the variable. -/
theorem Outcome.assign (hs : s.Sound pending) (hat : At F s w c) {name : String}
    {binding : Binding} {address : Operand} {ty : Ty} (hF : F.Contains (s.put (.store address a)))
    (hname : s.scopes.lookup? name = some binding)
    (haddress : binding.address? = some (address, ty)) (husable : a.Usable s)
    (ha : Denotes F.module c.frame a d) :
    Outcome F s (s.put (.store address a)) c (fun f d => Denotes F.module f a d)
      (do return (d, ← w.assign name d)) := by
  refine .store hs hat hF (fun rest => ?_) ?_
  · exact (hat.stores.advance rest).assign (hat.lookup hname) haddress
      ((hF.of_put hs).global_lt (hs.address hname haddress)) ha
  · intro f hf
    exact ha.keep (hs.temp_lt husable) fun k _ => by rw [hf]

end

/-! ## Conditionals -/

/-- What is known at the end of a lowered conditional: `s` is the state before it, `t` and `u` are
those at the ends of the branches. -/
structure Branches (F : Target) (pending : List BlockId) (s : LowerState) (condition : Operand)
    (t : LowerState) (layout : List BlockId) (u : LowerState) (layout' : List BlockId) : Prop where
  sound : s.Sound pending
  usable : condition.Usable s
  first : LowerState.FirstBranch pending s condition t
  moved : layout.Perm t.builder.body.layout
  second : LowerState.SecondBranch pending s t layout u
  moved' : layout'.Perm u.builder.body.layout
  contains : F.Contains (u.leave (s.builder.ahead 2) (s.builder.ahead 2) layout')

namespace Branches

variable {condition : Operand} {t u : LowerState} {layout layout' : List BlockId}

theorem contains_u (h : Branches F pending s condition t layout u layout') : F.Contains u :=
  h.contains.of_leave h.second.sound

theorem contains_second (h : Branches F pending s condition t layout u layout') :
    F.Contains (t.leave (s.builder.ahead 2) (s.builder.ahead 1) layout) :=
  .of_reaches (h.sound.second h.usable h.first h.moved).sound h.second h.contains_u

theorem contains_t (h : Branches F pending s condition t layout u layout') : F.Contains t :=
  h.contains_second.of_leave h.first.sound

theorem contains_fork (h : Branches F pending s condition t layout u layout') :
    F.Contains (s.fork condition) :=
  .of_reaches (h.sound.forked h.usable).sound h.first h.contains_t

/-- The blocks of the conditional are blocks of the finished function, and not the entry. -/
theorem ahead (h : Branches F pending s condition t layout u layout') (hvalid : F.Valid) {k : Nat}
    (hk : k < 3) : (s.builder.ahead k).index < F.builder.body.nextBlock ∧
      s.builder.ahead k ≠ F.builder.body.entry := by
  refine ⟨Nat.lt_of_lt_of_le (s.ahead_lt_forked condition hk) h.contains_fork.blocks, ?_⟩
  rw [hvalid.shaped.entry]
  have := h.sound.opened.inhabited
  simp only [Builder.ahead, ne_eq, BlockId.mk.injEq]
  omega

/-- The branches end in different blocks. -/
theorem ends_ne (h : Branches F pending s condition t layout u layout') :
    t.current ≠ u.current := by
  have hne : s.builder.ahead 1 ≠ t.current := h.first.sound.opened.pending_ne (by simp)
  exact h.second.builder.ne_cursor h.first.sound.opened.current_lt hne.symm

theorem empty_fork (h : Branches F pending s condition t layout u layout') :
    (s.fork condition).builder.flow.code (s.fork condition).current = [] := by
  change (s.builder.forked condition).flow.code (s.builder.ahead 0) = []
  rw [Builder.flow_forked h.sound.opened, Flow.code_close]
  exact h.sound.opened.code_fresh (Nat.le_add_right ..)

theorem empty_second (h : Branches F pending s condition t layout u layout') :
    (t.leave (s.builder.ahead 2) (s.builder.ahead 1) layout).builder.flow.code
      (s.builder.ahead 1) = [] := by
  change (t.builder.left _ _ _).flow.code _ = []
  rw [h.first.sound.opened.flow_left, Flow.code_close]
  exact h.first.sound.opened.empty _ (by simp)

theorem empty_join (h : Branches F pending s condition t layout u layout') :
    (u.leave (s.builder.ahead 2) (s.builder.ahead 2) layout').builder.flow.code
      (s.builder.ahead 2) = [] := by
  change (u.builder.left _ _ _).flow.code _ = []
  rw [h.second.sound.opened.flow_left, Flow.code_close]
  exact h.second.sound.opened.empty _ (by simp)

theorem work_fork (h : Branches F pending s condition t layout u layout') :
    (s.fork condition).builder.body.work = s.builder.body.work + 1 := by
  change (s.builder.widened.conclude _).body.work = _
  rw [Builder.work_conclude h.sound.opened.widened (by rintro ⟨⟩),
    Builder.work_widened h.sound.opened]

theorem work_leave {waiting : List BlockId} (hs : s.Sound waiting) (join next : BlockId)
    (layout : List BlockId) :
    (s.leave join next layout).builder.body.work = s.builder.body.work + 1 :=
  Builder.work_conclude hs.opened (by rintro ⟨⟩)

/-- What a lowered branch does to outcomes. -/
abbrev Simulated (F : Target) (f : Form) (s : LowerState) (v : Operand) (s' : LowerState) : Prop :=
  ∀ w c, At F s w c →
    Outcome F s s' c (fun fr d => Denotes F.module fr v d) (evalForm .lexical f w)

variable {y n : Operand} {ty : Ty}

/-- From the end of the first branch the machine comes to the join, and the second branch is
passed over. -/
theorem join_first (h : Branches F pending s condition t layout u layout') (hvalid : F.Valid)
    {no : Form} {waiting : List BlockId}
    (hno : Lowered waiting no (t.leave (s.builder.ahead 2) (s.builder.ahead 1) layout) n u)
    (hat : At F t w c) :
    Arrived F t (u.leave (s.builder.ahead 2) (s.builder.ahead 2) layout') c
      (F.enter c (s.builder.ahead 2)) (passForm no w) := by
  obtain ⟨hlt, hne⟩ := h.ahead hvalid (k := 2) (by decide)
  refine .enter hat (hat.step_leave hvalid h.first.sound h.contains_second hlt hne) h.empty_join
    ((passForm_scope no hno (hat.scope.leave ..)).leave ..) (passForm_stores hat.stores no) ?_
  have hfirst := work_leave h.first.sound (s.builder.ahead 2) (s.builder.ahead 1) layout
  have hsecond := work_leave h.second.sound (s.builder.ahead 2) (s.builder.ahead 2) layout'
  have hgrown := h.second.builder.work
  have hslots : (t.leave (s.builder.ahead 2) (s.builder.ahead 1) layout).builder.body.slots =
    t.builder.body.slots := rfl
  have hslots' : (u.leave (s.builder.ahead 2) (s.builder.ahead 2) layout').builder.body.slots =
    u.builder.body.slots := rfl
  rw [hsecond, hslots']
  change (t.leave _ _ _).builder.body.work + _ ≤ _ + (t.leave _ _ _).builder.body.slots.length
    at hgrown
  rw [hfirst, hslots] at hgrown
  omega

/-- From the end of the second branch the machine comes to the join. -/
theorem join_second (h : Branches F pending s condition t layout u layout') (hvalid : F.Valid)
    (hat : At F u w c) :
    Arrived F u (u.leave (s.builder.ahead 2) (s.builder.ahead 2) layout') c
      (F.enter c (s.builder.ahead 2)) w := by
  obtain ⟨hlt, hne⟩ := h.ahead hvalid (k := 2) (by decide)
  refine .enter hat (hat.step_leave hvalid h.second.sound h.contains hlt hne) h.empty_join
    (hat.scope.leave ..) hat.stores ?_
  rw [work_leave h.second.sound]
  change 1 + _ + u.builder.body.slots.length ≤ _
  omega

/-- A condition that is true leads to the first branch. -/
theorem take_first (h : Branches F pending s condition t layout u layout') (hvalid : F.Valid)
    (hat : At F s w c) {x : Value} (hread : c.frame.read condition = .ok x)
    (hx : x.isTrue = true) :
    Arrived F s (s.fork condition) c (F.enter c (s.builder.ahead 0)) w := by
  obtain ⟨hlt, hne⟩ := h.ahead hvalid (k := 0) (by decide)
  have hstep : c.step F.module = .ok (.running (F.enter c (s.builder.ahead 0))) := by
    rw [hat.step_fork h.sound h.contains_fork, hread, ← hvalid.goto_eq hat.stands.body hlt hne]
    exact if_pos hx
  refine .enter hat hstep h.empty_fork (hat.scope.fork condition) hat.stores ?_
  rw [h.work_fork]
  change 1 + _ + s.builder.body.slots.length ≤ _
  omega

/-- A condition that is false leads to the second branch, and the first is passed over. -/
theorem take_second (h : Branches F pending s condition t layout u layout') (hvalid : F.Valid)
    {yes : Form} {waiting : List BlockId}
    (hyes : Lowered waiting yes (s.fork condition) y t)
    (hat : At F s w c) {x : Value} (hread : c.frame.read condition = .ok x)
    (hx : x.isTrue = false) :
    Arrived F s (t.leave (s.builder.ahead 2) (s.builder.ahead 1) layout) c
      (F.enter c (s.builder.ahead 1)) (passForm yes w) := by
  obtain ⟨hlt, hne⟩ := h.ahead hvalid (k := 1) (by decide)
  have hstep : c.step F.module = .ok (.running (F.enter c (s.builder.ahead 1))) := by
    rw [hat.step_fork h.sound h.contains_fork, hread, ← hvalid.goto_eq hat.stands.body hlt hne]
    exact if_neg (by simp [hx])
  refine .enter hat hstep h.empty_second
    ((passForm_scope yes hyes (hat.scope.fork condition)).leave ..)
    (passForm_stores hat.stores yes) ?_
  have hgrown := h.first.builder.work
  change (s.fork condition).builder.body.work + _ ≤ _ + s.builder.body.slots.length at hgrown
  rw [h.work_fork] at hgrown
  rw [work_leave h.first.sound]
  change 1 + _ + t.builder.body.slots.length ≤ _
  omega

end Branches

/-- A conditional is an outcome if its branches are. -/
theorem Outcome.choose {condition y n : Operand} {t u : LowerState} {layout layout' : List BlockId}
    {waiting waiting' : List BlockId} (h : Branches F pending s condition t layout u layout')
    (hvalid : F.Valid) {yes no : Form} {ty : Ty}
    (hyes : Lowered waiting yes (s.fork condition) y t)
    (hno : Lowered waiting' no (t.leave (s.builder.ahead 2) (s.builder.ahead 1) layout) n u)
    (hfirst : Branches.Simulated F yes (s.fork condition) y t)
    (hsecond : Branches.Simulated F no
      (t.leave (s.builder.ahead 2) (s.builder.ahead 1) layout) n u)
    (hF : F.Contains ((u.leave (s.builder.ahead 2) (s.builder.ahead 2) layout').compute
      (.phi · ty [(y, t.current), (n, u.current)])))
    (hat : At F s w c) {d : Datum} (hd : Denotes F.module c.frame condition d) :
    Outcome F s ((u.leave (s.builder.ahead 2) (s.builder.ahead 2) layout').compute
        (.phi · ty [(y, t.current), (n, u.current)])) c
      (fun f d => Denotes F.module f u.nextTemp d) (do
        if ← d.truth then
          let (d, w) ← evalForm .lexical yes w
          return (← d.use, skipForm .lexical no w)
        else
          let (d, w) ← evalForm .lexical no (skipForm .lexical yes w)
          return (← d.use, w)) := by
  have hjoined := (h.sound.joined h.usable h.first h.moved h.second h.moved').sound
  have htruth := hd.truth
  cases hread : c.frame.read condition with
  | error fault =>
    cases hb : d.truth with
    | ok b =>
      rw [hread, hb] at htruth
      exact htruth.elim
    | error e =>
      rw [hread, hb] at htruth
      refine ⟨0, c, fault, .refl, ?_, htruth⟩
      rw [hat.step_fork h.sound h.contains_fork, hread]
      rfl
  | ok x =>
    cases hb : d.truth with
    | error e =>
      rw [hread, hb] at htruth
      exact htruth.elim
    | ok b =>
      rw [hread, hb] at htruth
      cases b with
      | true =>
        have harrived := h.take_first hvalid hat hread htruth
        refine .after harrived (Nat.le_refl _) ?_
        refine .bind (hfirst _ _ harrived.toAt) h.first.builder.values ?_
        intro d₁ w₁ c₁ hc₁ hd₁
        have hjoin := h.join_first hvalid hno hc₁.toAt
        refine .after hjoin h.second.builder.values ?_
        have hcame : (F.enter c₁ (s.builder.ahead 2)).frame.cameFrom = some t.current :=
          congrArg some hc₁.stands.block
        have hfind : ([(y, t.current), (n, u.current)].find? fun e => e.2 = t.current) =
            some (y, t.current) := by
          simp
        exact .phi hjoined hjoin.toAt hF hcame hfind hd₁
      | false =>
        have harrived := h.take_second hvalid hyes hat hread htruth
        refine .after harrived ?_ ?_
        · exact Nat.le_trans (Nat.le_refl _) h.first.builder.values
        refine .bind (hsecond _ _ harrived.toAt) h.second.builder.values ?_
        intro d₁ w₁ c₁ hc₁ hd₁
        have hjoin := h.join_second hvalid hc₁.toAt
        refine .after hjoin (Nat.le_refl _) ?_
        have hcame : (F.enter c₁ (s.builder.ahead 2)).frame.cameFrom = some u.current :=
          congrArg some hc₁.stands.block
        have hfind : ([(y, t.current), (n, u.current)].find? fun e => e.2 = u.current) =
            some (n, u.current) := by
          simp [h.ends_ne]
        exact .phi hjoined hjoin.toAt hF hcame hfind hd₁

/-! ## All forms -/

mutual

/-- From a state of lowering at which machine and evaluator agree, the machine leads to what the
evaluator leads to. -/
theorem Form.simulates (hvalid : F.Valid) {pending : List BlockId} {s s' : LowerState}
    {v : Operand} {w : World} {c : Config} :
    (f : Form) → Lowered pending f s v s' → s.Sound pending → F.Contains s' → At F s w c →
      Outcome F s s' c (fun fr d => Denotes F.module fr v d) (evalForm .lexical f w)
  | .number n, h, hs, hF, hat => by
    cases h
    exact .done (.refl hat) (.inr ⟨.int n, rfl, rfl⟩)
  | .truth b, h, hs, hF, hat => by
    cases h
    exact .done (.refl hat) (.inr ⟨.bool b, rfl, rfl⟩)
  | .text t, h, hs, hF, hat => by
    cases h
    have harrived : Arrived F s (s.withString t) c c w := by
      refine ⟨⟨hat.stands.of_flow rfl rfl, hat.scope.of_eq rfl rfl, hat.stores⟩, fun _ _ => rfl, 0,
        .refl, ?_⟩
      change 0 + s.builder.body.work + s.builder.body.slots.length ≤
        s.builder.body.work + s.builder.body.slots.length
      omega
    refine .done harrived (.inr ⟨.ptr (.str _), rfl, ?_⟩)
    rw [Value.datum, hF.strings (hs.string t).2]
    rfl
  | .reference name, h, hs, hF, hat => by
    cases h with
    | value hname => exact .reference_value hat hname ⟨_, hs.names hname⟩
    | load hname haddress => exact .reference_load hs hat hF hname haddress
  | .arith op left right, h, hs, hF, hat => by
    cases h with
    | arith hleft hright =>
      obtain ⟨hr₁, ha⟩ := left.reaches hleft hs
      obtain ⟨hr₂, hb⟩ := right.reaches hright hr₁.sound
      have hF₂ := hF.of_compute hr₂.sound
      have hF₁ := Target.Contains.of_reaches hr₁.sound hr₂ hF₂
      simp only [evalForm]
      refine (left.simulates hvalid hleft hs hF₁ hat).bind hr₁.builder.values ?_
      intro d₁ w₁ c₁ hc₁ hd₁
      refine (right.simulates hvalid hright hr₁.sound hF₂ hc₁.toAt).bind hr₂.builder.values ?_
      intro d₂ w₂ c₂ hc₂ hd₂
      exact .arith hr₂.sound hc₂.toAt hF (hc₂.keep hr₁.sound ha hd₁) hd₂
  | .compare cond left right, h, hs, hF, hat => by
    cases h with
    | compare hleft hright =>
      obtain ⟨hr₁, ha⟩ := left.reaches hleft hs
      obtain ⟨hr₂, hb⟩ := right.reaches hright hr₁.sound
      have hF₂ := hF.of_compute hr₂.sound
      have hF₁ := Target.Contains.of_reaches hr₁.sound hr₂ hF₂
      simp only [evalForm]
      refine (left.simulates hvalid hleft hs hF₁ hat).bind hr₁.builder.values ?_
      intro d₁ w₁ c₁ hc₁ hd₁
      refine (right.simulates hvalid hright hr₁.sound hF₂ hc₁.toAt).bind hr₂.builder.values ?_
      intro d₂ w₂ c₂ hc₂ hd₂
      exact .compare hr₂.sound hc₂.toAt hF (hc₂.keep hr₁.sound ha hd₁) hd₂
  | .declare name ty init, h, hs, hF, hat => by
    cases h with
    | declare hinit =>
      obtain ⟨hr₁, hv⟩ := init.reaches hinit hs
      have hvariable := hr₁.sound.withVariable name ty
      have hF₁ := Target.Contains.of_reaches hr₁.sound hvariable (hF.of_put hvariable.sound)
      simp only [evalForm]
      refine (init.simulates hvalid hinit hs hF₁ hat).bind hr₁.builder.values ?_
      intro d₁ w₁ c₁ hc₁ hd₁
      exact .declare hr₁.sound hc₁.toAt hF hv hd₁
  | .assign name value, h, hs, hF, hat => by
    cases h with
    | assign hvalue hname haddress =>
      obtain ⟨hr₁, hv⟩ := value.reaches hvalue hs
      simp only [evalForm]
      refine (value.simulates hvalid hvalue hs (hF.of_put hr₁.sound) hat).bind hr₁.builder.values ?_
      intro d₁ w₁ c₁ hc₁ hd₁
      exact .assign hr₁.sound hc₁.toAt hF hname haddress hv hd₁
  | .block first rest, h, hs, hF, hat => by
    cases h with
    | block hfirst hrest =>
      have hr₀ := hs.inner
      obtain ⟨hr₁, hv⟩ := first.reaches hfirst hr₀.sound
      obtain ⟨hr₂, hvs⟩ := Form.reachesAll rest hrest hr₁.sound
      have hF₂ := hF.of_scopes
      have hF₁ := Target.Contains.of_reaches hr₁.sound hr₂ hF₂
      have hinner : Arrived F s s.inner c c w := .rescope hat hat.scope.inner rfl
      simp only [evalForm]
      refine .after hinner (Nat.le_refl _) ?_
      refine (first.simulates hvalid hfirst hr₀.sound hF₁ hinner.toAt).bind hr₁.builder.values ?_
      intro d₁ w₁ c₁ hc₁ hd₁
      refine (Form.simulatesAll hvalid rest hrest hr₁.sound hF₂ hc₁.toAt).bind hr₂.builder.values ?_
      intro ds w₂ c₂ hc₂ hds
      have hlast := denotes_getLastD (hc₂.keep hr₁.sound hv hd₁) hds
      exact .done (.rescope hc₂.toAt (hat.scope.outer hc₂.scope) rfl) hlast
  | .print template args, h, hs, hF, hat => by
    cases h with
    | print htemplate hargs =>
      obtain ⟨hr₁, hv⟩ := template.reaches htemplate hs
      obtain ⟨hr₂, hvs⟩ := Form.reachesAll args hargs hr₁.sound
      have hF₂ := hF.of_compute hr₂.sound
      have hF₁ := Target.Contains.of_reaches hr₁.sound hr₂ hF₂
      simp only [evalForm]
      refine (template.simulates hvalid htemplate hs hF₁ hat).bind hr₁.builder.values ?_
      intro d₁ w₁ c₁ hc₁ hd₁
      refine (Form.simulatesAll hvalid args hargs hr₁.sound hF₂ hc₁.toAt).bind hr₂.builder.values ?_
      intro ds w₂ c₂ hc₂ hds
      exact .call hvalid hr₂.sound hc₂.toAt hF (hc₂.keep hr₁.sound hv hd₁) hds
  | .choose condition yes no, h, hs, hF, hat => by
    cases h with
    | choose hcondition hyes hmoved hno hmoved' =>
      have hl := relocate_perm hmoved
      have hl' := relocate_perm hmoved'
      obtain ⟨hr₁, hc⟩ := condition.reaches hcondition hs
      obtain ⟨ht, hy⟩ := yes.reaches hyes (hr₁.sound.forked hc).sound
      obtain ⟨hu, hn⟩ := no.reaches hno (hr₁.sound.second hc ht hl).sound
      have hjoined := (hr₁.sound.joined hc ht hl hu hl').sound
      have hbranches : Branches F pending _ _ _ _ _ _ :=
        ⟨hr₁.sound, hc, ht, hl, hu, hl', hF.of_compute hjoined⟩
      have hF₁ := Target.Contains.of_reaches hr₁.sound (hr₁.sound.forked hc)
        hbranches.contains_fork
      simp only [evalForm]
      refine (condition.simulates hvalid hcondition hs hF₁ hat).bind hr₁.builder.values ?_
      intro d₁ w₁ c₁ hc₁ hd₁
      exact .choose hbranches hvalid hyes hno
        (fun _ _ => yes.simulates hvalid hyes (hr₁.sound.forked hc).sound hbranches.contains_t)
        (fun _ _ => no.simulates hvalid hno (hr₁.sound.second hc ht hl).sound hbranches.contains_u)
        hF hc₁.toAt hd₁
  | .malformed _, h, hs, hF, hat => by cases h

theorem Form.simulatesAll (hvalid : F.Valid) {pending : List BlockId} {s s' : LowerState}
    {values : List Operand} {w : World} {c : Config} :
    (forms : List Form) → LoweredAll pending forms s values s' → s.Sound pending →
      F.Contains s' → At F s w c →
      Outcome F s s' c (fun fr ds => List.Forall₂ (Denotes F.module fr) values ds)
        (evalForms .lexical forms w)
  | [], h, hs, hF, hat => by
    cases h
    exact .done (.refl hat) .nil
  | f :: rest, h, hs, hF, hat => by
    cases h with
    | cons hf hrest =>
      obtain ⟨hr₁, hv⟩ := f.reaches hf hs
      obtain ⟨hr₂, hvs⟩ := Form.reachesAll rest hrest hr₁.sound
      have hF₁ := Target.Contains.of_reaches hr₁.sound hr₂ hF
      simp only [evalForms]
      refine (f.simulates hvalid hf hs hF₁ hat).bind hr₁.builder.values ?_
      intro d₁ w₁ c₁ hc₁ hd₁
      refine (Form.simulatesAll hvalid rest hrest hr₁.sound hF hc₁.toAt).bind hr₂.builder.values ?_
      intro ds w₂ c₂ hc₂ hds
      exact .done (.refl hc₂.toAt) (.cons (hc₂.keep hr₁.sound hv hd₁) hds)

end

end SexprSsa
