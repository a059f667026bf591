/-
SexprSsa.Proofs.Assignment — variables are assigned before they are read.

A variable has no value only if its declaration was passed over, and it can be
named afterwards only if it was declared in a branch of a conditional outside
any block of the branch. Such variables are loose; every other variable has its
value wherever its name refers to it.

Main statement: `compile_uninitialized`, a run that reads a variable without a value
reads a loose variable.
-/
import SexprSsa.Proofs.Runs

namespace SexprSsa

open Machine Direct

/-! ## The variables of a program -/

/-- A variable of a program: its name, and whether it is loose. -/
structure Variable where
  name : String
  loose : Bool
  deriving DecidableEq, Repr

mutual

/-- The variables that a form declares, in the order of their numbers. In the branches of a
conditional they are loose, and in a block they are not. -/
def Form.variables (loose : Bool) : Form → List Variable
  | .arith _ left right | .compare _ left right =>
      left.variables loose ++ right.variables loose
  | .declare name _ init => init.variables loose ++ [⟨name, loose⟩]
  | .assign _ value => value.variables loose
  | .block first rest => first.variables false ++ Form.variablesAll false rest
  | .print template args => template.variables loose ++ Form.variablesAll loose args
  | .choose condition yes no =>
      condition.variables loose ++ (yes.variables true ++ no.variables true)
  | .number _ | .truth _ | .text _ | .reference _ | .malformed _ => []

/-- The variables that forms declare. -/
def Form.variablesAll (loose : Bool) : List Form → List Variable
  | [] => []
  | f :: rest => f.variables loose ++ Form.variablesAll loose rest

end

/-- The names of the slots so far. -/
def LowerState.slotNames (s : LowerState) : List String := s.builder.body.slots.map StackSlot.name

/-- From one state of lowering to another, slots for the variables are added. -/
def LowerState.Adds (vars : List Variable) (s s' : LowerState) : Prop :=
  s'.slotNames = s.slotNames ++ vars.map Variable.name

theorem LowerState.Adds.refl (s : LowerState) : s.Adds [] s := (List.append_nil _).symm

theorem LowerState.Adds.trans {vars more : List Variable} {s s₁ s' : LowerState}
    (h : LowerState.Adds vars s s₁) (h' : LowerState.Adds more s₁ s') :
    LowerState.Adds (vars ++ more) s s' := by
  unfold LowerState.Adds at h h' ⊢
  rw [h', h, List.map_append, List.append_assoc]

/-- Only the slots matter. -/
theorem LowerState.Adds.of_slots {vars : List Variable} {s s₀ s₁ s' : LowerState}
    (h : LowerState.Adds vars s₀ s₁) (hs : s₀.builder.body.slots = s.builder.body.slots)
    (hs' : s'.builder.body.slots = s₁.builder.body.slots) : LowerState.Adds vars s s' := by
  unfold LowerState.Adds LowerState.slotNames at h ⊢
  rw [hs', h, hs]

mutual

/-- Lowering a form adds a slot for each of its variables. -/
theorem Lowered.adds {pending : List BlockId} {s s' : LowerState} {v : Operand} (loose : Bool) :
    (f : Form) → Lowered pending f s v s' → LowerState.Adds (f.variables loose) s s'
  | .number _, h => by
    cases h
    exact .refl s
  | .truth _, h => by
    cases h
    exact .refl s
  | .text _, h => by
    cases h
    exact .refl s
  | .reference _, h => by
    cases h with
    | value _ => exact .refl s
    | load _ _ => exact .refl s
  | .arith _ left right, h => by
    cases h with
    | arith hleft hright =>
      have hleft := Lowered.adds loose left hleft
      have hright := Lowered.adds loose right hright
      exact (hleft.trans hright).of_slots rfl rfl
  | .compare _ left right, h => by
    cases h with
    | compare hleft hright =>
      have hleft := Lowered.adds loose left hleft
      have hright := Lowered.adds loose right hright
      exact (hleft.trans hright).of_slots rfl rfl
  | .declare name ty init, h => by
    cases h with
    | @declare _ _ s₁ _ _ _ v hinit =>
      have hvariable : LowerState.Adds [⟨name, loose⟩] s₁ (s₁.withVariable name ty) := by
        change (s₁.builder.body.slots ++ [s₁.builder.nextSlot name ty]).map StackSlot.name = _
        rw [List.map_append]
        rfl
      exact (Lowered.adds loose init hinit).trans (hvariable.of_slots rfl rfl)
  | .assign _ value, h => by
    cases h with
    | assign hvalue _ _ =>
      have hvalue := Lowered.adds loose value hvalue
      exact hvalue.of_slots rfl rfl
  | .block first rest, h => by
    cases h with
    | block hfirst hrest =>
      have hfirst := Lowered.adds false first hfirst
      have hrest := LoweredAll.adds false rest hrest
      exact (hfirst.trans hrest).of_slots rfl rfl
  | .print template args, h => by
    cases h with
    | print htemplate hargs =>
      have htemplate := Lowered.adds loose template htemplate
      have hargs := LoweredAll.adds loose args hargs
      exact (htemplate.trans hargs).of_slots rfl rfl
  | .choose condition yes no, h => by
    cases h with
    | choose hcondition hyes _ hno _ =>
      have hcondition := Lowered.adds loose condition hcondition
      have hyes := Lowered.adds true yes hyes
      have hno := Lowered.adds true no hno
      exact hcondition.trans ((hyes.of_slots rfl rfl).trans (hno.of_slots rfl rfl))
  | .malformed _, h => by cases h

theorem LoweredAll.adds {pending : List BlockId} {s s' : LowerState} {values : List Operand}
    (loose : Bool) : (forms : List Form) → LoweredAll pending forms s values s' →
      LowerState.Adds (Form.variablesAll loose forms) s s'
  | [], h => by
    cases h
    exact .refl s
  | f :: rest, h => by
    cases h with
    | cons hf hrest =>
      have hf := Lowered.adds loose f hf
      have hrest := LoweredAll.adds loose rest hrest
      exact hf.trans hrest

end

/-! ## Failures that are not for lack of a value -/

/-- If the computation fails, then not for lack of a value. -/
def Direct.Assured {α : Type} (x : Except Failure α) : Prop := ∀ k, x ≠ .error (.emptyCell k)

namespace Direct

theorem Assured.ok {α : Type} (a : α) : Assured (.ok a : Except Failure α) := by
  rintro k ⟨⟩

theorem Assured.error {α : Type} {e : Failure} (h : ∀ k, e ≠ .emptyCell k) :
    Assured (.error e : Except Failure α) := by
  rintro k ⟨⟩
  exact h k rfl

theorem Assured.bind {α β : Type} {x : Except Failure α} {g : α → Except Failure β}
    (hx : Assured x) (hg : ∀ a, Assured (g a)) : Assured (x >>= g) := by
  cases x with
  | ok a => exact hg a
  | error e =>
    rintro k ⟨⟩
    exact hx k rfl

theorem Assured.map {α β : Type} {x : Except Failure α} (hx : Assured x) (g : α → β) :
    Assured (do return g (← x)) := hx.bind fun a => .ok (g a)

theorem Assured.mapM {α β : Type} {g : α → Except Failure β} (hg : ∀ a, Assured (g a))
    (l : List α) : Assured (l.mapM g) := by
  induction l with
  | nil => exact .ok []
  | cons a rest ih =>
    rw [List.mapM_cons]
    exact (hg a).bind fun _ => ih.bind fun _ => .ok _

theorem assured_number (d : Datum) : Assured d.number := by
  cases d <;> rintro k ⟨⟩

theorem assured_truth (d : Datum) : Assured d.truth := by
  cases d <;> rintro k ⟨⟩

theorem assured_use (d : Datum) : Assured d.use := by
  cases d <;> rintro k ⟨⟩

theorem assured_string (d : Datum) : Assured d.string := by
  cases d <;> rintro k ⟨⟩

theorem assured_calculate (op : ArithOp) (a b : Int32) : Assured (calculate op a b) := by
  unfold calculate
  cases op.eval? a b with
  | some value => exact .ok _
  | none => exact .error (by rintro k ⟨⟩)

theorem assured_convert (conversion : Char) (d : Datum) : Assured (convert conversion d) := by
  unfold convert
  split
  · exact (assured_number d).map _
  · exact (assured_number d).map _
  · exact (assured_number d).map _
  · exact (assured_number d).map _
  · exact (assured_number d).map _
  · exact (assured_string d).map _
  · exact .error (by rintro k ⟨⟩)

theorem assured_format (template : List Char) (args : List Datum) :
    Assured (format template args) := by
  fun_induction format template args with
  | case1 => exact .ok []
  | case2 => exact .error (by rintro k ⟨⟩)
  | case3 rest args ih => exact ih.map _
  | case4 => exact .error (by rintro k ⟨⟩)
  | case5 conversion rest d args _ ih =>
    exact (assured_convert conversion d).bind fun _ => ih.map _
  | case6 c rest args _ _ _ _ ih => exact ih.map _

theorem assured_printed (template : Datum) (args : List Datum) :
    Assured (printed template args) :=
  (Assured.mapM assured_use _).bind fun _ => (assured_string _).bind fun _ =>
    (assured_format _ _).map _

end Direct

/-! ## Evaluation keeps variables assigned -/

section
variable {vars mid post : List Variable} {w w' w₁ : World} {α β : Type}

/-- The variable with a number is loose. -/
def Loose (vars : List Variable) (k : Nat) : Prop := ∃ name, vars[k]? = some ⟨name, true⟩

/-- A name that refers to a variable refers to one that has a value or is loose. -/
def Assigned (vars : List Variable) (w : World) : Prop :=
  ∀ name k, w.names name = some (.cell k) → (w.cells k).isSome ∨ Loose vars k

/-- Evaluation has come to where the variables `post` are still to be declared. -/
structure Proceeds (vars post : List Variable) (w w' : World) : Prop where
  next : vars.drop w'.next = post
  assigned : Assigned vars w'
  /-- No variable has lost its value. -/
  filled : ∀ k, (w.cells k).isSome → (w'.cells k).isSome

/-- An evaluation comes to where the variables `post` are still to be declared, or fails; it fails
for lack of a value only if a loose variable has none. -/
def Assigns (vars post : List Variable) (w : World) : Except Failure (β × World) → Prop
  | .ok (_, w') => Proceeds vars post w w'
  | .error e => ∀ k, e = .emptyCell k → Loose vars k

theorem Proceeds.refl (hnext : vars.drop w.next = post) (h : Assigned vars w) :
    Proceeds vars post w w := ⟨hnext, h, fun _ => id⟩

theorem Proceeds.trans (h : Proceeds vars mid w w₁) (h' : Proceeds vars post w₁ w') :
    Proceeds vars post w w' := ⟨h'.next, h'.assigned, fun k hk => h'.filled k (h.filled k hk)⟩

namespace Assigns

theorem after {y : Except Failure (β × World)} (h : Proceeds vars mid w w₁)
    (hy : Assigns vars post w₁ y) : Assigns vars post w y := by
  cases y with
  | ok p => exact h.trans hy
  | error e => exact hy

theorem bind {x : Except Failure (α × World)} {g : α × World → Except Failure (β × World)}
    (h : Assigns vars mid w x)
    (hg : ∀ d w₁, Proceeds vars mid w w₁ → Assigns vars post w₁ (g (d, w₁))) :
    Assigns vars post w (x >>= g) := by
  cases x with
  | ok p => exact after h (hg p.1 p.2 h)
  | error e => exact h

/-- A computation on data comes in between. -/
theorem data {x : Except Failure α} {g : α → Except Failure (β × World)} (hx : Assured x)
    (hg : ∀ a, Assigns vars post w (g a)) : Assigns vars post w (x >>= g) := by
  cases x with
  | ok a => exact hg a
  | error e =>
    rintro k rfl
    exact absurd rfl (hx k)

theorem fail {e : Failure} (h : ∀ k, e ≠ .emptyCell k) :
    Assigns vars post w (.error e : Except Failure (β × World)) :=
  fun k he => absurd he (h k)

end Assigns

theorem Assigned.value (h : Assigned vars w) (hnext : vars.drop w.next = post) (name : String) :
    Assigns vars post w (do return (← w.value name, w)) := by
  unfold World.value
  cases hname : w.names name with
  | none => exact .fail (by rintro k ⟨⟩)
  | some place =>
    cases place with
    | global i => exact .refl hnext h
    | function => exact .refl hnext h
    | cell k =>
      cases hcell : w.cells k with
      | some d =>
        simp only [hcell]
        exact Proceeds.refl hnext h
      | none =>
        simp only [hcell]
        rintro j ⟨⟩
        exact (h name k hname).resolve_left (by simp [hcell])

/-- Filling a cell empties none. -/
theorem isSome_fill (k : Nat) (d : Datum) (j : Nat) (hj : (w.cells j).isSome) :
    ((w.fill k d).cells j).isSome := by
  change (if j = k then some d else w.cells j).isSome
  split
  · rfl
  · exact hj

theorem Proceeds.fill (hnext : vars.drop w.next = post) (h : Assigned vars w) (k : Nat)
    (d : Datum) : Proceeds vars post w (w.fill k d) where
  next := hnext
  assigned name j hname := (h name j hname).imp_left (isSome_fill k d j)
  filled := isSome_fill k d

theorem Assigned.declare (h : Assigned vars w) {x : Variable}
    (hnext : vars.drop w.next = x :: post) (name : String) (d : Datum) :
    Assigns vars post w (do return (d, ← w.declare name d)) := by
  unfold World.declare
  rw [bind_assoc]
  refine .data (assured_use d) ?_
  intro d'
  refine ⟨?_, ?_, isSome_fill (w := w.reserve name) w.next d'⟩
  · change vars.drop (w.next + 1) = post
    rw [← List.drop_drop, hnext]
    rfl
  · intro other k hother
    change (if other = name then some (Place.cell w.next) else w.names other) = some (.cell k)
      at hother
    split at hother
    · cases hother
      exact .inl (by simp [World.fill])
    · exact (h other k hother).imp_left (isSome_fill (w := w.reserve name) w.next d' k)

theorem Assigned.assign (h : Assigned vars w) (hnext : vars.drop w.next = post) (name : String)
    (d : Datum) : Assigns vars post w (do return (d, ← w.assign name d)) := by
  unfold World.assign
  cases w.names name with
  | none => exact .fail (by rintro k ⟨⟩)
  | some place =>
    cases place with
    | cell k =>
      simp only [bind_assoc]
      exact .data (assured_use d) fun d' => .fill hnext h k d'
    | global i =>
      simp only [bind_assoc]
      exact .data (assured_use d) fun d' => ⟨hnext, h, fun _ => id⟩
    | function => exact .fail (by rintro k ⟨⟩)

mutual

/-- Passing over a form passes over its variables. -/
theorem passForm_next (loose : Bool) {post : List Variable} {w : World} : (f : Form) →
    vars.drop w.next = f.variables loose ++ post → vars.drop (passForm f w).next = post
  | .number _, h | .truth _, h | .text _, h | .reference _, h | .malformed _, h => h
  | .arith _ left right, h | .compare _ left right, h => by
    rw [Form.variables, List.append_assoc] at h
    exact passForm_next loose right (passForm_next loose left h)
  | .declare _ _ init, h => by
    rw [Form.variables, List.append_assoc] at h
    have hinit := passForm_next loose init h
    change vars.drop ((passForm init w).next + 1) = post
    rw [← List.drop_drop, hinit]
    rfl
  | .assign _ value, h => passForm_next loose value h
  | .block first rest, h => by
    rw [Form.variables, List.append_assoc] at h
    exact passForms_next false rest (passForm_next false first h)
  | .print template args, h => by
    rw [Form.variables, List.append_assoc] at h
    exact passForms_next loose args (passForm_next loose template h)
  | .choose condition yes no, h => by
    rw [Form.variables, List.append_assoc, List.append_assoc] at h
    exact passForm_next true no (passForm_next true yes (passForm_next loose condition h))

theorem passForms_next (loose : Bool) {post : List Variable} {w : World} : (forms : List Form) →
    vars.drop w.next = Form.variablesAll loose forms ++ post →
      vars.drop (passForms forms w).next = post
  | [], h => h
  | f :: rest, h => by
    rw [Form.variablesAll, List.append_assoc] at h
    exact passForms_next loose rest (passForm_next loose f h)

end

mutual

/-- After a branch that is passed over, names refer to variables that have a value or are loose. -/
theorem passForm_assigned {post : List Variable} {w : World} : (f : Form) →
    vars.drop w.next = f.variables true ++ post → Assigned vars w → Assigned vars (passForm f w)
  | .number _, _, hw | .truth _, _, hw | .text _, _, hw | .reference _, _, hw
  | .malformed _, _, hw => hw
  | .arith _ left right, h, hw | .compare _ left right, h, hw => by
    rw [Form.variables, List.append_assoc] at h
    exact passForm_assigned right (passForm_next true left h) (passForm_assigned left h hw)
  | .declare name _ init, h, hw => by
    rw [Form.variables, List.append_assoc] at h
    have hinit := passForm_next true init h
    intro other k hother
    change (if other = name then some (Place.cell (passForm init w).next)
      else (passForm init w).names other) = some (.cell k) at hother
    split at hother
    · cases hother
      refine .inr ⟨name, ?_⟩
      have hhead := congrArg List.head? hinit
      rwa [List.head?_drop] at hhead
    · exact passForm_assigned init h hw other k hother
  | .assign _ value, h, hw => passForm_assigned value h hw
  | .block first rest, _, hw => by
    intro name k hname
    change (((passForms rest (passForm first w)).cells k).isSome = true) ∨ _
    rw [((passForm_kept first w).trans (passForms_kept rest _)).cells]
    exact hw name k hname
  | .print template args, h, hw => by
    rw [Form.variables, List.append_assoc] at h
    exact passForms_assigned args (passForm_next true template h) (passForm_assigned template h hw)
  | .choose condition yes no, h, hw => by
    rw [Form.variables, List.append_assoc, List.append_assoc] at h
    have hcondition := passForm_next true condition h
    exact passForm_assigned no (passForm_next true yes hcondition)
      (passForm_assigned yes hcondition (passForm_assigned condition h hw))

theorem passForms_assigned {post : List Variable} {w : World} : (forms : List Form) →
    vars.drop w.next = Form.variablesAll true forms ++ post → Assigned vars w →
      Assigned vars (passForms forms w)
  | [], _, hw => hw
  | f :: rest, h, hw => by
    rw [Form.variablesAll, List.append_assoc] at h
    exact passForms_assigned rest (passForm_next true f h) (passForm_assigned f h hw)

end

theorem Proceeds.pass {f : Form} (hnext : vars.drop w.next = f.variables true ++ post)
    (h : Assigned vars w) : Proceeds vars post w (passForm f w) := by
  refine ⟨passForm_next true f hnext, passForm_assigned f hnext h, fun k hk => ?_⟩
  rw [(passForm_kept f w).cells]
  exact hk

mutual

/-- An evaluation fails for lack of a value only if a loose variable has none. -/
theorem evalForm_assigns (loose : Bool) {post : List Variable} {w : World} : (f : Form) →
    vars.drop w.next = f.variables loose ++ post → Assigned vars w →
      Assigns vars post w (evalForm .lexical f w)
  | .number _, h, hw | .truth _, h, hw | .text _, h, hw => Proceeds.refl h hw
  | .reference name, h, hw => hw.value h name
  | .arith op left right, h, hw => by
    rw [Form.variables, List.append_assoc] at h
    refine (evalForm_assigns loose left h hw).bind ?_
    intro a w₁ h₁
    refine (evalForm_assigns loose right h₁.next h₁.assigned).bind ?_
    intro b w₂ h₂
    refine .data (assured_number a) fun _ => .data (assured_number b) fun _ => ?_
    exact .data (assured_calculate op _ _) fun _ => Proceeds.refl h₂.next h₂.assigned
  | .compare _ left right, h, hw => by
    rw [Form.variables, List.append_assoc] at h
    refine (evalForm_assigns loose left h hw).bind ?_
    intro a w₁ h₁
    refine (evalForm_assigns loose right h₁.next h₁.assigned).bind ?_
    intro b w₂ h₂
    refine .data (assured_number a) fun _ => .data (assured_number b) fun _ => ?_
    exact Proceeds.refl h₂.next h₂.assigned
  | .declare name _ init, h, hw => by
    rw [Form.variables, List.append_assoc] at h
    refine (evalForm_assigns loose init h hw).bind ?_
    intro d w₁ h₁
    exact h₁.assigned.declare h₁.next name d
  | .assign name value, h, hw => by
    refine (evalForm_assigns loose value h hw).bind ?_
    intro d w₁ h₁
    exact h₁.assigned.assign h₁.next name d
  | .block first rest, h, hw => by
    rw [Form.variables, List.append_assoc] at h
    refine (evalForm_assigns false first h hw).bind ?_
    intro d w₁ h₁
    refine (evalForms_assigns false rest h₁.next h₁.assigned).bind ?_
    intro ds w₂ h₂
    -- The names are those from before the block, and what had a value then has one now.
    have hassigned : Assigned vars { w₂ with names := w.names } := fun name k hname =>
      (hw name k hname).imp_left ((h₁.trans h₂).filled k)
    exact ⟨h₂.next, hassigned, fun _ => id⟩
  | .print template args, h, hw => by
    rw [Form.variables, List.append_assoc] at h
    refine (evalForm_assigns loose template h hw).bind ?_
    intro t w₁ h₁
    refine (evalForms_assigns loose args h₁.next h₁.assigned).bind ?_
    intro ds w₂ h₂
    refine .data (assured_printed t ds) ?_
    intro text
    exact ⟨h₂.next, h₂.assigned, fun _ => id⟩
  | .choose condition yes no, h, hw => by
    rw [Form.variables, List.append_assoc, List.append_assoc] at h
    refine (evalForm_assigns loose condition h hw).bind ?_
    intro d w₁ h₁
    refine .data (assured_truth d) ?_
    intro b
    cases b with
    | true =>
      refine (evalForm_assigns true yes h₁.next h₁.assigned).bind ?_
      intro d₂ w₂ h₂
      exact .data (assured_use d₂) fun _ => .pass h₂.next h₂.assigned
    | false =>
      have hpass := Proceeds.pass h₁.next h₁.assigned
      refine .after hpass ?_
      refine (evalForm_assigns true no hpass.next hpass.assigned).bind ?_
      intro d₂ w₂ h₂
      exact .data (assured_use d₂) fun _ => .refl h₂.next h₂.assigned
  | .malformed _, _, _ => .fail (by rintro k ⟨⟩)

theorem evalForms_assigns (loose : Bool) {post : List Variable} {w : World} :
    (forms : List Form) → vars.drop w.next = Form.variablesAll loose forms ++ post →
      Assigned vars w → Assigns vars post w (evalForms .lexical forms w)
  | [], h, hw => Proceeds.refl h hw
  | f :: rest, h, hw => by
    rw [Form.variablesAll, List.append_assoc] at h
    refine (evalForm_assigns loose f h hw).bind ?_
    intro d w₁ h₁
    refine (evalForms_assigns loose rest h₁.next h₁.assigned).bind ?_
    intro ds w₂ h₂
    exact Proceeds.refl h₂.next h₂.assigned

end

end

/-! ## Compiled programs -/

theorem Options.assigned_world (options : Options) (vars : List Variable) :
    Assigned vars options.world := by
  intro name k hname
  change options.place? name = _ at hname
  unfold Options.place? at hname
  split at hname
  · cases hname
  · obtain ⟨i, -, hi⟩ := Option.map_eq_some_iff.1 hname
    cases hi

/-- A run that reads a variable without a value reads a loose variable. -/
theorem Compiled.uninitialized {options : Options} {program : Expr} {m : Module}
    {prepared : Module × Scopes} {v : Operand} {t : LowerState}
    (h : Compiled options program m prepared v t) {limit : Nat} {slot : SlotId}
    (hrun : run m limit options.entry = .error (.uninitialized slot)) :
    Loose ((Form.ofExpr options.strict program).variables false) slot.index := by
  have hassigns : Assigns ((Form.ofExpr options.strict program).variables false) [] options.world
      (evalForm .lexical (.ofExpr options.strict program) options.world) :=
    evalForm_assigns false _ (List.append_nil _).symm (options.assigned_world _)
  rcases h.run_fault hrun with hlimit | ⟨e, heval, hfault⟩
  · cases hlimit
  · rw [eval_eq .lexical _ (h.lowered.hasForm program)] at heval
    rw [heval] at hassigns
    cases e with
    | emptyCell k =>
      obtain rfl : slot.index = k := hfault
      exact hassigns _ rfl
    | _ => exact hfault.elim

/-- The slots of a compiled function are the variables of the program. -/
theorem Compiled.slotNames {options : Options} {program : Expr} {m : Module}
    {prepared : Module × Scopes} {v : Operand} {t : LowerState}
    (h : Compiled options program m prepared v t) : t.slotNames =
      ((Form.ofExpr options.strict program).variables false).map Variable.name := by
  exact Eq.trans (Lowered.adds false _ h.lowered) (List.nil_append _)

end SexprSsa
