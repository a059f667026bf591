/-
SexprSsa.Proofs.Forms — what lowering a form does, form by form.

`Lowered` lists the successful lowerings: one rule for each form, with the
states in between written out. Whatever is proved of lowering later is proved
by a case for each rule. The list of blocks that wait is part of it, since a
conditional lowers its branches while others wait.

Main statements: `Form.reaches`, a successful lowering keeps the state sound and
its value is usable; `Form.lower_spec`, lowering in a sound state follows the
rules or fails for a reason that lies in the program. The builder refuses
nothing.
-/
import SexprSsa.Proofs.Branching

namespace SexprSsa

/-! ## The rules -/

namespace LowerState

/-- The value that is computed next. -/
def nextTemp (s : LowerState) : Operand := .temp ⟨s.builder.body.nextValue⟩

/-- An instruction is put at the cursor. -/
def put (s : LowerState) (i : Instr) : LowerState := { s with builder := s.builder.put i }

/-- A value is computed at the cursor. -/
def compute (s : LowerState) (i : ValueId → Instr) : LowerState :=
  { s with builder := s.builder.putValue i }

/-- A scope is open. -/
def inner (s : LowerState) : LowerState := { s with scopes := s.scopes.push }

/-- The text is a string of the module. -/
def withString (s : LowerState) (value : String) : LowerState :=
  { s with module := (s.module.addString value).2 }

/-- The slot that is added next. -/
def nextSlot (s : LowerState) : SlotId := ⟨s.builder.body.slots.length⟩

/-- A new variable is bound to the name. -/
def withVariable (s : LowerState) (name : String) (ty : Ty) : LowerState :=
  { s with
    builder := s.builder.addVariable name ty
    scopes := s.scopes.define name (.slot s.nextSlot ty) }

/-- The blocks of a conditional are open. -/
def fork (s : LowerState) (condition : Operand) : LowerState :=
  { s with builder := s.builder.forked condition }

/-- A branch of a conditional has jumped to the join. -/
def leave (s : LowerState) (join next : BlockId) (layout : List BlockId) : LowerState :=
  { s with builder := s.builder.left join next layout }

/-- The block of the cursor. -/
def current (s : LowerState) : BlockId := s.builder.cursor.block

end LowerState

mutual

/-- With some blocks waiting, a form has been lowered from one state to another. -/
inductive Lowered : List BlockId → Form → LowerState → Operand → LowerState → Prop
  | number {pending s value} : Lowered pending (.number value) s (.ofInt value) s
  | truth {pending s value} : Lowered pending (.truth value) s (.ofBool value) s
  | text {pending s value} :
      Lowered pending (.text value) s (.str (s.module.addString value).1) (s.withString value)
  | value {pending s name v} : s.scopes.lookup? name = some (.value v) →
      Lowered pending (.reference name) s v s
  | load {pending s name binding address ty} : s.scopes.lookup? name = some binding →
      binding.address? = some (address, ty) →
      Lowered pending (.reference name) s s.nextTemp (s.compute (.load · ty address))
  | arith {pending s s₁ s₂ op left right a b} :
      Lowered pending left s a s₁ → Lowered pending right s₁ b s₂ →
      Lowered pending (.arith op left right) s s₂.nextTemp (s₂.compute (.arith · op a b))
  | compare {pending s s₁ s₂ cond left right a b} :
      Lowered pending left s a s₁ → Lowered pending right s₁ b s₂ →
      Lowered pending (.compare cond left right) s s₂.nextTemp (s₂.compute (.compare · cond a b))
  | declare {pending s s₁ name ty init v} : Lowered pending init s v s₁ →
      Lowered pending (.declare name ty init) s v
        ((s₁.withVariable name ty).put (.store (.slot s₁.nextSlot) v))
  | assign {pending s s₁ name value v binding address ty} : Lowered pending value s v s₁ →
      s₁.scopes.lookup? name = some binding → binding.address? = some (address, ty) →
      Lowered pending (.assign name value) s v (s₁.put (.store address v))
  | block {pending s s₁ s₂ first rest v values} :
      Lowered pending first s.inner v s₁ → LoweredAll pending rest s₁ values s₂ →
      Lowered pending (.block first rest) s (values.getLastD v) { s₂ with scopes := s.scopes }
  | print {pending s s₁ s₂ template args v values} :
      Lowered pending template s v s₁ → LoweredAll pending args s₁ values s₂ →
      Lowered pending (.print template args) s s₂.nextTemp
        (s₂.compute (.call · printName (v :: values)))
  | choose {pending s s₁ t u condition yes no c y n layout layout'} :
      Lowered pending condition s c s₁ →
      Lowered (s₁.builder.ahead 1 :: s₁.builder.ahead 2 :: pending) yes (s₁.fork c) y t →
      relocate t.builder.body.layout (s₁.builder.ahead 1) t.current = .ok layout →
      Lowered (s₁.builder.ahead 2 :: pending) no
        (t.leave (s₁.builder.ahead 2) (s₁.builder.ahead 1) layout) n u →
      relocate u.builder.body.layout (s₁.builder.ahead 2) u.current = .ok layout' →
      Lowered pending (.choose condition yes no) s u.nextTemp
        ((u.leave (s₁.builder.ahead 2) (s₁.builder.ahead 2) layout').compute
          (.phi · u.builder.signature.ret [(y, t.current), (n, u.current)]))

/-- Forms have been lowered from left to right. -/
inductive LoweredAll : List BlockId → List Form → LowerState → List Operand → LowerState → Prop
  | nil {pending s} : LoweredAll pending [] s [] s
  | cons {pending s s₁ s₂ form rest v values} :
      Lowered pending form s v s₁ → LoweredAll pending rest s₁ values s₂ →
      LoweredAll pending (form :: rest) s (v :: values) s₂

end

/-! ## The rules keep a state sound -/

namespace LowerState

variable {pending : List BlockId} {s s' : LowerState}

theorem Sound.inner (h : s.Sound pending) : s.Reaches pending s.inner :=
  h.rescope fun hname => h.names (by rwa [Scopes.lookup?_push] at hname)

/-- After a scope the names are those from before. -/
theorem Reaches.outer (hs : s.Sound pending) (h : s.Reaches pending s') :
    s.Reaches pending { s' with scopes := s.scopes } := by
  refine ⟨?_, h.module, h.builder, h.settled⟩
  exact (h.sound.rescope fun hname => (hs.names hname).mono h.module
    (h.builder.covers hs.opened)).sound

theorem Sound.withVariable (h : s.Sound pending) (name : String) (ty : Ty) :
    s.Reaches pending (s.withVariable name ty) := by
  have hvariable := h.addVariable name ty
  refine hvariable.trans h (hvariable.sound.define ?_)
  change _ < (s.builder.body.slots ++ [s.builder.nextSlot name ty]).length
  simp [LowerState.nextSlot]

/-- A name that refers to a variable gives a usable address. -/
theorem Sound.address (h : s.Sound pending) {name : String} {binding : Binding}
    {address : Operand} {ty : Ty} (hname : s.scopes.lookup? name = some binding)
    (haddress : binding.address? = some (address, ty)) : address.Usable s := by
  have hknown := h.names hname
  cases binding with
  | slot id _ =>
    obtain ⟨rfl, -⟩ : Operand.slot id = address ∧ _ := by simpa [Binding.address?] using haddress
    exact ⟨hknown, by rintro w ⟨⟩⟩
  | global id _ =>
    obtain ⟨rfl, -⟩ : Operand.global id = address ∧ _ := by
      simpa [Binding.address?] using haddress
    exact ⟨hknown, by rintro w ⟨⟩⟩
  | value v => simp [Binding.address?] at haddress

theorem usable_getLastD {values : List Operand} {v : Operand} (hv : v.Usable s)
    (hvalues : ∀ w ∈ values, w.Usable s) : (values.getLastD v).Usable s := by
  rw [List.getLastD_eq_getLast?]
  cases hlast : values.getLast? with
  | none => exact hv
  | some w => exact hvalues w (List.mem_of_getLast? hlast)

theorem usable_const (c : Constant) : (Operand.const c).Usable s :=
  ⟨trivial, by rintro w ⟨⟩⟩

end LowerState

mutual

/-- A lowering keeps the state sound, and its value is usable. -/
theorem Form.reaches {pending : List BlockId} {s s' : LowerState} {v : Operand} :
    (f : Form) → Lowered pending f s v s' → s.Sound pending →
      s.Reaches pending s' ∧ v.Usable s'
  | .number n, h, hs => by
    cases h
    exact ⟨.refl hs, LowerState.usable_const _⟩
  | .truth b, h, hs => by
    cases h
    exact ⟨.refl hs, LowerState.usable_const _⟩
  | .text t, h, hs => by
    cases h
    obtain ⟨hreaches, hstring⟩ := hs.string t
    refine ⟨hreaches, ?_, by rintro w ⟨⟩⟩
    exact Option.isSome_iff_exists.2 ⟨_, hstring⟩
  | .reference name, h, hs => by
    cases h with
    | value hname =>
      have hv : v = .func s.builder.signature.name := hs.names hname
      exact ⟨.refl hs, by rw [hv]; exact ⟨rfl, by rintro w ⟨⟩⟩⟩
    | load hname haddress =>
      refine hs.compute_plain (fun _ => rfl) (fun _ => rfl) (fun _ => rfl)
        (by rintro r r' callee args ⟨⟩) ?_
      intro r v hv
      obtain rfl := List.mem_singleton.1 hv
      exact hs.address hname haddress
  | .arith op left right, h, hs => by
    cases h with
    | @arith _ _ s₁ s₂ _ _ _ a b hleft hright =>
      obtain ⟨hr₁, ha⟩ := left.reaches hleft hs
      obtain ⟨hr₂, hb⟩ := right.reaches hright hr₁.sound
      have ha' := hr₂.usable hr₁.sound ha
      obtain ⟨hr₃, hv⟩ := hr₂.sound.compute_plain (i := (.arith · op a b)) (fun _ => rfl)
        (fun _ => rfl) (fun _ => rfl) (by rintro r r' callee args ⟨⟩) fun r => by
          simp [Instr.operands, ha', hb]
      exact ⟨(hr₁.trans hs hr₂).trans hs hr₃, hv⟩
  | .compare cond left right, h, hs => by
    cases h with
    | @compare _ _ s₁ s₂ _ _ _ a b hleft hright =>
      obtain ⟨hr₁, ha⟩ := left.reaches hleft hs
      obtain ⟨hr₂, hb⟩ := right.reaches hright hr₁.sound
      have ha' := hr₂.usable hr₁.sound ha
      obtain ⟨hr₃, hv⟩ := hr₂.sound.compute_plain (i := (.compare · cond a b)) (fun _ => rfl)
        (fun _ => rfl) (fun _ => rfl) (by rintro r r' callee args ⟨⟩) fun r => by
          simp [Instr.operands, ha', hb]
      exact ⟨(hr₁.trans hs hr₂).trans hs hr₃, hv⟩
  | .declare name ty init, h, hs => by
    cases h with
    | @declare _ _ s₁ _ _ _ _ hinit =>
      obtain ⟨hr₁, hv⟩ := init.reaches hinit hs
      have hr₂ := hr₁.sound.withVariable name ty
      have hv' := hr₂.usable hr₁.sound hv
      have hname : (s₁.withVariable name ty).scopes.lookup? name =
          some (.slot s₁.nextSlot ty) := (Scopes.lookup?_define ..).trans (if_pos rfl)
      have hslot := hr₂.sound.address hname rfl
      have hr₃ := hr₂.sound.store hslot hv'
      exact ⟨(hr₁.trans hs hr₂).trans hs hr₃, hr₃.usable hr₂.sound hv'⟩
  | .assign name value, h, hs => by
    cases h with
    | assign hvalue hname haddress =>
      obtain ⟨hr₁, hv⟩ := value.reaches hvalue hs
      have hr₂ := hr₁.sound.store (hr₁.sound.address hname haddress) hv
      exact ⟨hr₁.trans hs hr₂, hr₂.usable hr₁.sound hv⟩
  | .block first rest, h, hs => by
    cases h with
    | block hfirst hrest =>
      have hr₀ := hs.inner
      obtain ⟨hr₁, hv⟩ := first.reaches hfirst hr₀.sound
      obtain ⟨hr₂, hvs⟩ := Form.reachesAll rest hrest hr₁.sound
      have hlast := LowerState.usable_getLastD (hr₂.usable hr₁.sound hv) hvs
      exact ⟨((hr₀.trans hs hr₁).trans hs hr₂).outer hs, hlast.known, hlast.settled⟩
  | .print template args, h, hs => by
    cases h with
    | @print _ _ s₁ s₂ _ _ v values htemplate hargs =>
      obtain ⟨hr₁, hv⟩ := template.reaches htemplate hs
      obtain ⟨hr₂, hvs⟩ := Form.reachesAll args hargs hr₁.sound
      have hv' := hr₂.usable hr₁.sound hv
      obtain ⟨hr₃, hcall⟩ := hr₂.sound.compute_plain (i := (.call · printName (v :: values)))
        (fun _ => rfl) (fun _ => rfl) (fun _ => rfl)
        (by rintro r r' callee args ⟨⟩; exact ⟨rfl, List.cons_ne_nil _ _⟩) fun r => by
          simpa [Instr.operands, hv'] using hvs
      exact ⟨(hr₁.trans hs hr₂).trans hs hr₃, hcall⟩
  | .choose condition yes no, h, hs => by
    cases h with
    | choose hcondition hyes hmoved hno hmoved' =>
      have hl := relocate_perm hmoved
      have hl' := relocate_perm hmoved'
      obtain ⟨hr₁, hc⟩ := condition.reaches hcondition hs
      obtain ⟨ht, hy⟩ := yes.reaches hyes (hr₁.sound.forked hc).sound
      obtain ⟨hu, hn⟩ := no.reaches hno (hr₁.sound.second hc ht hl).sound
      obtain ⟨hmerged, hv⟩ := hr₁.sound.merged hc ht hl hu hl' hy hn _
      exact ⟨hr₁.trans hs hmerged, hv⟩
  | .malformed fault, h, hs => by cases h

theorem Form.reachesAll {pending : List BlockId} {s s' : LowerState} {values : List Operand} :
    (forms : List Form) → LoweredAll pending forms s values s' → s.Sound pending →
      s.Reaches pending s' ∧ ∀ v ∈ values, v.Usable s'
  | [], h, hs => by
    cases h
    exact ⟨.refl hs, by simp⟩
  | f :: rest, h, hs => by
    cases h with
    | cons hf hrest =>
      obtain ⟨hr₁, hv⟩ := f.reaches hf hs
      obtain ⟨hr₂, hvs⟩ := Form.reachesAll rest hrest hr₁.sound
      refine ⟨hr₁.trans hs hr₂, ?_⟩
      simpa using ⟨hr₂.usable hr₁.sound hv, hvs⟩

end

/-! ## Lowering follows the rules -/

/-- The error is about the program, not about the function under construction. -/
def CompileError.OfProgram : CompileError → Prop
  | .malformed _ | .unboundName _ | .notAssignable _ => True
  | .unreadable _ | .notDeclared _ | .ir _ => False

namespace Lower

variable {pending : List BlockId} {s : LowerState}

/-- A builder's operation that succeeds. -/
theorem build_eq {α : Type} {operation : Build α} {a : α} {b : Builder}
    (h : operation s.builder = (.ok a, b)) :
    build operation s = (.ok a, { s with builder := b }) := by
  simp only [build, h]

theorem build_compute (h : s.Sound pending) (i : ValueId → Instr) :
    build (Build.compute i) s = (.ok s.nextTemp, s.compute i) :=
  build_eq (Build.compute_eq h.opened i)

theorem build_store (h : s.Sound pending) (address value : Operand) :
    build (Build.store address value) s = (.ok (), s.put (.store address value)) :=
  build_eq (Build.insert_eq h.opened _)

/-- The print function is declared as long as a program is lowered. -/
theorem requirePrint_eq (h : s.Sound pending) : requirePrint s = (.ok (), s) := by
  have hfunc : s.module.func? printName = some (.declared printSignature) := by
    unfold Module.func?
    rw [h.functions]
    exact Table.find?_insert_self ..
  simp only [requirePrint, hfunc]

theorem inScope_meets {α : Type} {allowed : CompileError → Prop} {action : Lower α}
    {post : α → LowerState → Prop} (h : Meets allowed action s.inner post) :
    Meets allowed (inScope action) s fun a s' =>
      ∃ s₁, post a s₁ ∧ s' = { s₁ with scopes := s.scopes } := by
  rcases haction : action s.inner with ⟨e | a, s₁⟩
  · have herror : inScope action s = (.error e, { s₁ with scopes := s.scopes }) := by
      simp only [inScope]
      rw [show action { s with scopes := s.scopes.push } = _ from haction]
    exact .of_error herror (h.error haction)
  · have hok : inScope action s = (.ok a, { s₁ with scopes := s.scopes }) := by
      simp only [inScope]
      rw [show action { s with scopes := s.scopes.push } = _ from haction]
    exact .of_ok hok ⟨s₁, h.ok haction, rfl⟩

theorem readName_meets (h : s.Sound pending) (name : String) :
    Meets CompileError.OfProgram (readName name) s fun v s' =>
      Lowered pending (.reference name) s v s' := by
  unfold readName
  cases hname : s.scopes.lookup? name with
  | none =>
    have hresolve : resolve name s = (.error (.unboundName name), s) := by
      simp only [resolve, hname]
    exact .of_error (bind_of_error hresolve) trivial
  | some binding =>
    have hresolve : resolve name s = (.ok binding, s) := by simp only [resolve, hname]
    cases binding with
    | value v => exact .of_ok (bind_of_ok hresolve) (.value hname)
    | slot id ty =>
      exact .of_ok ((bind_of_ok hresolve).trans (build_compute h _)) (.load hname rfl)
    | global id ty =>
      exact .of_ok ((bind_of_ok hresolve).trans (build_compute h _)) (.load hname rfl)

theorem declareName_eq (h : s.Sound pending) (name : String) (ty : Ty) (v : Operand) :
    declareName name ty v s =
      (.ok (), (s.withVariable name ty).put (.store (.slot s.nextSlot) v)) := by
  unfold declareName
  refine (bind_of_ok (build_eq (Build.alloca_eq h.opened.toShaped name ty))).trans ?_
  refine (bind_of_ok (show _ = (Except.ok (), s.withVariable name ty) from rfl)).trans ?_
  exact build_store (h.withVariable name ty).sound _ _

theorem assignName_meets (h : s.Sound pending) (name : String) (v : Operand) :
    Meets CompileError.OfProgram (assignName name v) s fun _ s' =>
      ∃ binding address ty, s.scopes.lookup? name = some binding ∧
        binding.address? = some (address, ty) ∧ s' = s.put (.store address v) := by
  cases hname : s.scopes.lookup? name with
  | none =>
    have hresolve : resolve name s = (.error (.unboundName name), s) := by
      simp only [resolve, hname]
    exact .of_error (bind_of_error hresolve) trivial
  | some binding =>
    have hresolve : resolve name s = (.ok binding, s) := by simp only [resolve, hname]
    cases haddress : binding.address? with
    | none =>
      have hthrow : assignName name v s = (.error (.notAssignable name), s) := by
        refine (bind_of_ok hresolve).trans ?_
        simp only [haddress]
        rfl
      exact .of_error hthrow trivial
    | some found =>
      obtain ⟨address, ty⟩ := found
      have hstore : assignName name v s = (.ok (), s.put (.store address v)) := by
        refine (bind_of_ok hresolve).trans ?_
        simp only [haddress]
        exact build_store h address v
      exact .of_ok hstore ⟨binding, address, ty, rfl, haddress, rfl⟩

theorem fork_meets (h : s.Sound pending) (condition : Operand) :
    Meets CompileError.OfProgram (build (fork condition)) s fun blocks s' =>
      blocks = ⟨s.builder.ahead 0, s.builder.ahead 1, s.builder.ahead 2⟩ ∧
        s' = s.fork condition :=
  .of_ok (build_eq (Builder.fork_eq h.opened condition)) ⟨rfl, rfl⟩

theorem closeBranch_meets (h : s.Sound pending) (join : BlockId) {next : BlockId}
    (hnext : next ∈ pending) :
    Meets CompileError.OfProgram (build (closeBranch join next)) s fun last s' =>
      last = s.current ∧
        ∃ layout, relocate s.builder.body.layout next s.current = .ok layout ∧
          s' = s.leave join next layout := by
  obtain ⟨layout, hmoved, hclose⟩ := Builder.closeBranch_eq join h.opened hnext
  exact .of_ok (build_eq hclose) ⟨rfl, layout, hmoved, rfl⟩

theorem build_merge (h : s.Sound pending) (incoming : List (Operand × BlockId)) :
    build (merge incoming) s =
      (.ok s.nextTemp, s.compute (.phi · s.builder.signature.ret incoming)) :=
  build_eq (Builder.merge_eq h.opened incoming)

end Lower

mutual

/-- In a sound state, lowering a form follows the rules or reports an error of the program. -/
theorem Form.lower_spec {pending : List BlockId} {s : LowerState} (hs : s.Sound pending) :
    (f : Form) → Meets CompileError.OfProgram f.lower s fun v s' => Lowered pending f s v s'
  | .number n => .of_ok rfl .number
  | .truth b => .of_ok rfl .truth
  | .text t => .of_ok rfl .text
  | .reference name => by
    simp only [Form.lower]
    exact Lower.readName_meets hs name
  | .arith op left right => by
    simp only [Form.lower]
    refine (left.lower_spec hs).bind ?_
    intro a s₁ hleft
    have hs₁ := (left.reaches hleft hs).1.sound
    refine (right.lower_spec hs₁).bind ?_
    intro b s₂ hright
    have hs₂ := (right.reaches hright hs₁).1.sound
    exact .of_ok (Lower.build_compute hs₂ _) (.arith hleft hright)
  | .compare cond left right => by
    simp only [Form.lower]
    refine (left.lower_spec hs).bind ?_
    intro a s₁ hleft
    have hs₁ := (left.reaches hleft hs).1.sound
    refine (right.lower_spec hs₁).bind ?_
    intro b s₂ hright
    have hs₂ := (right.reaches hright hs₁).1.sound
    exact .of_ok (Lower.build_compute hs₂ _) (.compare hleft hright)
  | .declare name ty init => by
    simp only [Form.lower]
    refine (init.lower_spec hs).bind ?_
    intro v s₁ hinit
    have hs₁ := (init.reaches hinit hs).1.sound
    exact .of_ok ((bind_of_ok (Lower.declareName_eq hs₁ name ty v)).trans rfl) (.declare hinit)
  | .assign name value => by
    simp only [Form.lower]
    refine (value.lower_spec hs).bind ?_
    intro v s₁ hvalue
    have hs₁ := (value.reaches hvalue hs).1.sound
    refine (Lower.assignName_meets hs₁ name v).bind ?_
    intro _ s₂ hassign
    obtain ⟨binding, address, ty, hname, haddress, rfl⟩ := hassign
    exact .pure (.assign hvalue hname haddress)
  | .block first rest => by
    simp only [Form.lower]
    have hbody : Meets CompileError.OfProgram (do
        let value ← first.lower
        let values ← Form.lowerAll rest
        return values.getLastD value) s.inner fun v s₂ =>
          Lowered pending (.block first rest) s v { s₂ with scopes := s.scopes } := by
      refine (first.lower_spec hs.inner.sound).bind ?_
      intro v s₁ hfirst
      have hs₁ := (first.reaches hfirst hs.inner.sound).1.sound
      refine (Form.lowerAll_spec hs₁ rest).bind ?_
      intro values s₂ hrest
      exact .pure (.block hfirst hrest)
    refine (Lower.inScope_meets hbody).weaken ?_
    rintro v s' ⟨s₂, hlowered, rfl⟩
    exact hlowered
  | .print template args => by
    simp only [Form.lower]
    have hrequire : Meets CompileError.OfProgram Lower.requirePrint s fun _ s' => s' = s :=
      .of_ok (Lower.requirePrint_eq hs) rfl
    refine hrequire.bind ?_
    intro _ s' hs'
    subst hs'
    refine (template.lower_spec hs).bind ?_
    intro v s₁ htemplate
    have hs₁ := (template.reaches htemplate hs).1.sound
    refine (Form.lowerAll_spec hs₁ args).bind ?_
    intro values s₂ hargs
    have hs₂ := (Form.reachesAll args hargs hs₁).1.sound
    exact .of_ok (Lower.build_compute hs₂ _) (.print htemplate hargs)
  | .choose condition yes no => by
    simp only [Form.lower]
    refine (condition.lower_spec hs).bind ?_
    intro c s₁ hcondition
    obtain ⟨hr₁, hc⟩ := condition.reaches hcondition hs
    refine (Lower.fork_meets hr₁.sound c).bind ?_
    intro blocks s' hblocks
    obtain ⟨rfl, rfl⟩ := hblocks
    have hforked := (hr₁.sound.forked hc).sound
    refine (yes.lower_spec hforked).bind ?_
    intro y t hyes
    obtain ⟨ht, hy⟩ := yes.reaches hyes hforked
    refine (Lower.closeBranch_meets ht.sound _ (by simp)).bind ?_
    intro yesEnd s' hend
    obtain ⟨rfl, layout, hmoved, rfl⟩ := hend
    have hl := relocate_perm hmoved
    have hsecond := (hr₁.sound.second hc ht hl).sound
    refine (no.lower_spec hsecond).bind ?_
    intro n u hno
    obtain ⟨hu, hn⟩ := no.reaches hno hsecond
    refine (Lower.closeBranch_meets hu.sound _ (by simp)).bind ?_
    intro noEnd s' hend
    obtain ⟨rfl, layout', hmoved', rfl⟩ := hend
    have hjoined := (hr₁.sound.joined hc ht hl hu (relocate_perm hmoved')).sound
    have hmerge := Lower.build_merge hjoined [(y, t.current), (n, u.current)]
    have hlowered := Lowered.choose hcondition hyes hmoved hno hmoved'
    exact Meets.of_ok hmerge hlowered
  | .malformed fault => .of_error rfl trivial

theorem Form.lowerAll_spec {pending : List BlockId} {s : LowerState} (hs : s.Sound pending) :
    (forms : List Form) → Meets CompileError.OfProgram (Form.lowerAll forms) s
      fun values s' => LoweredAll pending forms s values s'
  | [] => by
    simp only [Form.lowerAll]
    exact Meets.pure LoweredAll.nil
  | f :: rest => by
    simp only [Form.lowerAll]
    refine (f.lower_spec hs).bind ?_
    intro v s₁ hf
    have hs₁ := (f.reaches hf hs).1.sound
    refine (Form.lowerAll_spec hs₁ rest).bind ?_
    intro values s₂ hrest
    exact .pure (.cons hf hrest)

end

end SexprSsa
