/-
SexprSsa.Proofs.Marks — a program in the order of its text.

A program is read from left to right, each operand before what is done with it.
What is met on the way are its marks: names that are read, assigned or declared,
the beginnings and ends of blocks, operations, and the turns of conditionals.
What a name refers to at a place is decided by the marks before it, without any
table of scopes: the latest declaration counts that does not stand in a block
whose end has been met (`inForce?`).

The outline of a program is what its code has to do, mark by mark
(`Options.outline?`); every name in it is resolved so. There is no outline if a
name refers to nothing.

Main statements: `Form.skips`, a block that has ended is looked past as a whole,
and `outline?_append`, a text is outlined part by part.
-/
import SexprSsa.Proofs.Acceptance
import SexprSsa.Proofs.WellFormed

namespace SexprSsa

/-! ## Marks -/

/-- What is met in a program that is read from left to right, operands first. -/
inductive Mark where
  /-- A block begins. -/
  | enter
  /-- A block ends. -/
  | leave
  | read (name : String)
  | assign (name : String)
  /-- A declaration is complete. -/
  | declare (name : String) (ty : Ty)
  /-- An arithmetic operation or a comparison, by its symbol. -/
  | operate (tag : String)
  | print
  /-- The condition of a conditional is known. -/
  | branch
  /-- A branch of a conditional is over. -/
  | jump
  /-- The branches of a conditional meet. -/
  | merge
  deriving DecidableEq, Repr

/-- The variable that a mark declares. -/
def Mark.variable? : Mark → Option (String × Ty)
  | .declare name ty => some (name, ty)
  | _ => none

/-- The variables that are declared, in the order in which their declarations are complete. -/
def variablesIn (marks : List Mark) : List (String × Ty) := marks.filterMap Mark.variable?

@[simp] theorem variablesIn_append (marks more : List Mark) :
    variablesIn (marks ++ more) = variablesIn marks ++ variablesIn more :=
  List.filterMap_append

/-- A mark that declares nothing. -/
theorem variablesIn_concat {mark : Mark} (h : mark.variable? = none) (marks : List Mark) :
    variablesIn (marks ++ [mark]) = variablesIn marks := by
  rw [variablesIn_append, variablesIn, variablesIn, List.filterMap_cons_none h,
    List.filterMap_nil, List.append_nil]

theorem variablesIn_declare (marks : List Mark) (name : String) (ty : Ty) :
    variablesIn (marks ++ [.declare name ty]) = variablesIn marks ++ [(name, ty)] := by
  rw [variablesIn_append]
  rfl

/-- The name and the type that the target of a declaration gives. -/
def Expr.declared : Expr → String × Ty
  | .symbol name => (name, .i32)
  | .list [.symbol name, .symbol ty] => (name, if ty = "string" then .bytes else .i32)
  | _ => ("", .i32)

mutual

/-- The marks of a program. -/
def Expr.marks : Expr → List Mark
  | .number _ | .text _ => []
  | .symbol name => if name = "true" ∨ name = "false" then [] else [.read name]
  | .list [.symbol "var", target, init] =>
      Expr.marks init ++ [.declare (Expr.declared target).1 (Expr.declared target).2]
  | .list [.symbol "set", .symbol name, value] => Expr.marks value ++ [.assign name]
  | .list [.symbol "if", condition, yes, no] =>
      Expr.marks condition ++ [.branch] ++ Expr.marks yes ++ [.jump] ++ Expr.marks no ++
        [.jump, .merge]
  | .list (.symbol "begin" :: operands) => [.enter] ++ Expr.marksAll operands ++ [.leave]
  | .list (.symbol "printf" :: operands) => Expr.marksAll operands ++ [.print]
  | .list (.symbol tag :: operands) => Expr.marksAll operands ++ [.operate tag]
  | .list _ => []

/-- The marks of operands, one after the other. -/
def Expr.marksAll : List Expr → List Mark
  | [] => []
  | e :: rest => Expr.marks e ++ Expr.marksAll rest

end

mutual

/-- The marks of a form. -/
def Form.marks : Form → List Mark
  | .number _ | .truth _ | .text _ | .malformed _ => []
  | .reference name => [.read name]
  | .arith op left right => left.marks ++ right.marks ++ [.operate op.tag]
  | .compare cond left right => left.marks ++ right.marks ++ [.operate cond.tag]
  | .declare name ty init => init.marks ++ [.declare name ty]
  | .assign name value => value.marks ++ [.assign name]
  | .block first rest => [.enter] ++ (first.marks ++ Form.marksAll rest) ++ [.leave]
  | .print template args => template.marks ++ Form.marksAll args ++ [.print]
  | .choose condition yes no =>
      condition.marks ++ [.branch] ++ yes.marks ++ [.jump] ++ no.marks ++ [.jump, .merge]

/-- The marks of forms, one after the other. -/
def Form.marksAll : List Form → List Mark
  | [] => []
  | f :: rest => f.marks ++ Form.marksAll rest

end

theorem declared_of_declaredBy {strict : Bool} {target : Expr} {d : String × Ty}
    (h : Form.declaredBy strict target = .ok d) : Expr.declared target = d := by
  unfold Form.declaredBy at h
  split at h
  · cases h
    rfl
  · next name ty =>
    unfold resolveTy at h
    split at h
    · cases h
      rfl
    · cases h
      rfl
    · next hnumber hstring =>
      split at h
      · cases h
      · cases h
        exact congrArg (Prod.mk name) (if_neg hstring)
  all_goals cases h

/-- Operations leave the marks of their operands, and one of their own. -/
theorem Expr.marks_operate {tag : String} (h : tag ∉ ["var", "set", "if", "begin", "printf"])
    (operands : List Expr) :
    Expr.marks (.list (.symbol tag :: operands)) = Expr.marksAll operands ++ [.operate tag] := by
  simp only [List.mem_cons, List.not_mem_nil, or_false, not_or] at h
  obtain ⟨hvar, hset, hif, hbegin, hprintf⟩ := h
  rw [Expr.marks]
  · intro _ _ _ htag
    exact hvar htag
  · intro _ _ _ htag
    exact hset htag
  · intro _ _ _ _ htag
    exact hif htag
  · exact hbegin
  · exact hprintf

mutual

/-- The marks of a program are those of its form. -/
theorem HasForm.marks_eq {strict : Bool} {e : Expr} : (f : Form) → HasForm strict e f →
    Expr.marks e = f.marks
  | .number _, h => by
    cases h
    simp only [Expr.marks, Form.marks]
  | .truth _, h => by
    cases h <;> simp [Expr.marks, Form.marks]
  | .text _, h => by
    cases h
    simp only [Expr.marks, Form.marks]
  | .reference _, h => by
    cases h with
    | reference htrue hfalse => simp [Expr.marks, Form.marks, htrue, hfalse]
  | .arith op l r, h => by
    cases h with
    | arith hleft hright =>
      rw [Expr.marks_operate (by cases op <;> decide)]
      simp [Expr.marksAll, Form.marks, HasForm.marks_eq l hleft, HasForm.marks_eq r hright]
  | .compare cond l r, h => by
    cases h with
    | compare hleft hright =>
      rw [Expr.marks_operate (by cases cond <;> decide)]
      simp [Expr.marksAll, Form.marks, HasForm.marks_eq l hleft, HasForm.marks_eq r hright]
  | .declare _ _ init, h => by
    cases h with
    | declare htarget hinit =>
      simp only [Expr.marks, Form.marks, HasForm.marks_eq init hinit,
        declared_of_declaredBy htarget]
  | .assign _ value, h => by
    cases h with
    | assign hvalue => simp only [Expr.marks, Form.marks, HasForm.marks_eq value hvalue]
  | .block first rest, h => by
    cases h with
    | block hfirst hrest =>
      simp only [Expr.marks, Expr.marksAll, Form.marks, HasForm.marks_eq first hfirst,
        HaveForms.marks_eq rest hrest]
  | .print template args, h => by
    cases h with
    | print htemplate hargs =>
      simp only [Expr.marks, Expr.marksAll, Form.marks, HasForm.marks_eq template htemplate,
        HaveForms.marks_eq args hargs]
  | .choose condition yes no, h => by
    cases h with
    | choose hcondition hyes hno =>
      simp only [Expr.marks, Form.marks, HasForm.marks_eq condition hcondition,
        HasForm.marks_eq yes hyes, HasForm.marks_eq no hno]
  | .malformed _, h => by cases h

theorem HaveForms.marks_eq {strict : Bool} {es : List Expr} : (forms : List Form) →
    HaveForms strict es forms → Expr.marksAll es = Form.marksAll forms
  | [], h => by
    cases h
    simp only [Expr.marksAll, Form.marksAll]
  | f :: rest, h => by
    cases h with
    | cons hf hrest =>
      simp only [Expr.marksAll, Form.marksAll, HasForm.marks_eq f hf, HaveForms.marks_eq rest hrest]

end

/-! ## The declaration in force -/

/-- What a name refers to by the declarations that some marks complete, the latest mark first. Of
`closed` blocks the end has been passed and not yet the beginning; what is declared in them is not
in force. -/
def inForce? (name : String) : Nat → List Mark → Option Binding
  | _, [] => none
  | closed, .leave :: earlier => inForce? name (closed + 1) earlier
  | closed, .enter :: earlier => inForce? name (closed - 1) earlier
  | closed, .declare other ty :: earlier =>
      if closed = 0 ∧ other = name then some (.slot ⟨(variablesIn earlier).length⟩ ty)
      else inForce? name closed earlier
  | closed, _ :: earlier => inForce? name closed earlier

/-- What is in force has been declared under the name, and its slot is counted there. -/
theorem exists_of_inForce {name : String} {closed : Nat} {marks : List Mark} {binding : Binding}
    (h : inForce? name closed marks = some binding) :
    ∃ later ty earlier, marks = later ++ .declare name ty :: earlier ∧
      binding = .slot ⟨(variablesIn earlier).length⟩ ty := by
  induction marks generalizing closed with
  | nil => cases h
  | cons mark earlier ih =>
    have hearlier {closed : Nat} (h : inForce? name closed earlier = some binding) :
        ∃ later ty earlier', mark :: earlier = later ++ .declare name ty :: earlier' ∧
          binding = .slot ⟨(variablesIn earlier').length⟩ ty := by
      obtain ⟨later, ty, rest, rfl, hbinding⟩ := ih h
      exact ⟨mark :: later, ty, rest, rfl, hbinding⟩
    cases mark with
    | declare other ty =>
      rw [inForce?] at h
      split at h
      · next hforce =>
        obtain ⟨-, rfl⟩ := hforce
        cases h
        exact ⟨[], ty, earlier, rfl, rfl⟩
      · exact hearlier h
    | _ => exact hearlier h

theorem length_variablesIn_reverse (marks : List Mark) :
    (variablesIn marks.reverse).length = (variablesIn marks).length := by
  rw [variablesIn, List.filterMap_reverse, List.length_reverse]
  rfl

/-- The slot in force carries the name and the type of the declaration. -/
theorem variablesIn_of_inForce {name : String} {before : List Mark} {k : SlotId} {ty : Ty}
    (h : inForce? name 0 before.reverse = some (.slot k ty)) :
    (variablesIn before)[k.index]? = some (name, ty) := by
  obtain ⟨later, ty', earlier, hmarks, hbinding⟩ := exists_of_inForce h
  cases hbinding
  rw [List.reverse_eq_iff, List.reverse_append, List.reverse_cons, List.append_assoc] at hmarks
  have hsplit : variablesIn before =
      variablesIn earlier.reverse ++ (name, ty) :: variablesIn later.reverse := by
    rw [hmarks, variablesIn_append]
    rfl
  rw [hsplit, ← length_variablesIn_reverse earlier, List.getElem?_append_right (Nat.le_refl _),
    Nat.sub_self]
  rfl

/-- Marks that no declaration in force stands between, once the block around them has ended. -/
def Skipped (marks : List Mark) : Prop :=
  ∀ name closed earlier, inForce? name (closed + 1) (marks.reverse ++ earlier) =
    inForce? name (closed + 1) earlier

namespace Skipped

variable {marks more : List Mark}

theorem nil : Skipped [] := fun _ _ _ => rfl

theorem append (h : Skipped marks) (h' : Skipped more) : Skipped (marks ++ more) := by
  intro name closed earlier
  rw [List.reverse_append, List.append_assoc, h', h]

/-- A block within a block that has ended. -/
theorem block (h : Skipped marks) : Skipped ([.enter] ++ marks ++ [.leave]) := by
  intro name closed earlier
  rw [List.reverse_append, List.reverse_append]
  change inForce? name (closed + 1 + 1) (marks.reverse ++ [Mark.enter] ++ earlier) = _
  rw [List.append_assoc, h]
  rfl

end Skipped

/-- A mark that opens no block, ends none and declares nothing. -/
def Mark.isPlain : Mark → Bool
  | .enter | .leave | .declare .. => false
  | _ => true

theorem Mark.variable?_of_plain {mark : Mark} (h : mark.isPlain = true) :
    mark.variable? = none := by
  cases mark <;> first | rfl | cases h

theorem inForce?_cons_plain {mark : Mark} (h : mark.isPlain = true) (name : String) (closed : Nat)
    (earlier : List Mark) :
    inForce? name closed (mark :: earlier) = inForce? name closed earlier := by
  cases mark <;> first | rfl | cases h

theorem skipped_plain {mark : Mark} (h : mark.isPlain = true) : Skipped [mark] :=
  fun name closed earlier => inForce?_cons_plain h name (closed + 1) earlier

theorem skipped_declare (name : String) (ty : Ty) : Skipped [.declare name ty] := by
  intro other closed earlier
  exact if_neg fun h => absurd h.1 (Nat.succ_ne_zero closed)

mutual

/-- **What a block declares is not in force once the block has ended.** -/
theorem Form.skips : (f : Form) → Skipped f.marks
  | .number _ | .truth _ | .text _ | .malformed _ => by
    simp only [Form.marks]
    exact .nil
  | .reference _ => by
    simp only [Form.marks]
    exact skipped_plain rfl
  | .arith _ left right => by
    simp only [Form.marks]
    exact (left.skips.append right.skips).append (skipped_plain rfl)
  | .compare _ left right => by
    simp only [Form.marks]
    exact (left.skips.append right.skips).append (skipped_plain rfl)
  | .declare name ty init => by
    simp only [Form.marks]
    exact init.skips.append (skipped_declare name ty)
  | .assign _ value => by
    simp only [Form.marks]
    exact value.skips.append (skipped_plain rfl)
  | .block first rest => by
    simp only [Form.marks]
    exact (first.skips.append (Form.skipsAll rest)).block
  | .print template args => by
    simp only [Form.marks]
    exact (template.skips.append (Form.skipsAll args)).append (skipped_plain rfl)
  | .choose condition yes no => by
    simp only [Form.marks]
    have hbranch : Skipped [.branch] := skipped_plain rfl
    have hjump : Skipped [.jump] := skipped_plain rfl
    have hmerge : Skipped [.merge] := skipped_plain rfl
    have hyes := (condition.skips.append hbranch).append yes.skips
    have hno := (hyes.append hjump).append no.skips
    exact hno.append (hjump.append hmerge)

theorem Form.skipsAll : (forms : List Form) → Skipped (Form.marksAll forms)
  | [] => by
    simp only [Form.marksAll]
    exact .nil
  | f :: rest => by
    simp only [Form.marksAll]
    exact f.skips.append (Form.skipsAll rest)

end

/-! ## Names -/

namespace Options

/-- What a name refers to that the program does not declare. -/
def binding? (options : Options) (name : String) : Option Binding :=
  if name = options.entry then some (.value (.func options.entry))
  else ((globalNames options.globals).idxOf? name).map fun i => .global ⟨i⟩ .i32

/-- What a name refers to after some marks. -/
def bindingAt (options : Options) (before : List Mark) (name : String) : Option Binding :=
  (inForce? name 0 before.reverse).or (options.binding? name)

variable (options : Options) (before : List Mark)

/-- A declaration hides what a name refers to otherwise. -/
theorem bindingAt_of_inForce {name : String} {binding : Binding}
    (h : inForce? name 0 before.reverse = some binding) :
    options.bindingAt before name = some binding := by
  rw [bindingAt, h]
  rfl

theorem bindingAt_plain {mark : Mark} (h : mark.isPlain = true) :
    options.bindingAt (before ++ [mark]) = options.bindingAt before := by
  funext name
  rw [bindingAt, List.reverse_append, List.reverse_singleton, List.singleton_append,
    inForce?_cons_plain h]
  rfl

theorem bindingAt_enter :
    options.bindingAt (before ++ [.enter]) = options.bindingAt before := by
  funext name
  rw [bindingAt, List.reverse_append]
  rfl

/-- A declaration is in force as soon as it is complete. -/
theorem bindingAt_declare (name other : String) (ty : Ty) :
    options.bindingAt (before ++ [.declare name ty]) other =
      if other = name then some (.slot ⟨(variablesIn before).length⟩ ty)
      else options.bindingAt before other := by
  rw [bindingAt, List.reverse_append, List.reverse_singleton, List.singleton_append, inForce?,
    length_variablesIn_reverse]
  by_cases h : other = name
  · rw [if_pos ⟨rfl, h.symm⟩, if_pos h]
    rfl
  · rw [if_neg fun hand => h hand.2.symm, if_neg h]
    rfl

/-- After a block names refer to what they did before. -/
theorem bindingAt_block {marks : List Mark} (h : Skipped marks) :
    options.bindingAt (before ++ ([.enter] ++ marks ++ [.leave])) = options.bindingAt before := by
  funext name
  rw [bindingAt, List.reverse_append, List.reverse_append, List.reverse_append]
  change (inForce? name 1 (marks.reverse ++ [Mark.enter] ++ before.reverse)).or _ = _
  rw [List.append_assoc, h]
  rfl

end Options

/-! ## Outlines -/

/-- What an instruction or a terminator does, with the address that it uses and without the values
that it takes. -/
inductive Act where
  | load (ty : Ty) (address : Operand)
  | store (address : Operand)
  | operate (tag : String)
  | call (callee : String)
  | merge
  | branch
  | jump
  | ret
  deriving DecidableEq, Repr

/-- What the code has to do for a mark, if names refer to these bindings and `next` is the number of
the next slot. A variable is loaded where its name is read; other values need no code. -/
def Mark.acts? (bound : String → Option Binding) (next : Nat) : Mark → Option (List Act)
  | .enter | .leave => some []
  | .read name => (bound name).map fun binding =>
      match binding.address? with
      | some (address, ty) => [.load ty address]
      | none => []
  | .assign name => ((bound name).bind Binding.address?).map fun target => [.store target.1]
  | .declare _ _ => some [.store (.slot ⟨next⟩)]
  | .operate tag => some [.operate tag]
  | .print => some [.call printName]
  | .branch => some [.branch]
  | .jump => some [.jump]
  | .merge => some [.merge]

namespace Options

variable (options : Options)

/-- What the code has to do for a mark that comes after others. -/
def actsAt? (before : List Mark) (mark : Mark) : Option (List Act) :=
  mark.acts? (options.bindingAt before) (variablesIn before).length

/-- What the code has to do for marks that come after others, in this order. -/
def outline? (before : List Mark) : List Mark → Option (List Act)
  | [] => some []
  | mark :: rest => do
      let acts ← options.actsAt? before mark
      let more ← outline? (before ++ [mark]) rest
      return acts ++ more

theorem outline?_singleton (before : List Mark) (mark : Mark) :
    options.outline? before [mark] = options.actsAt? before mark := by
  cases h : options.actsAt? before mark <;> simp [outline?, h]

/-- A text is outlined part by part. -/
theorem outline?_append (before marks more : List Mark) :
    options.outline? before (marks ++ more) = (do
      let acts ← options.outline? before marks
      let later ← options.outline? (before ++ marks) more
      return acts ++ later) := by
  induction marks generalizing before with
  | nil =>
    cases h : options.outline? before more <;> simp [outline?, h]
  | cons mark rest ih =>
    rw [List.cons_append, outline?, outline?, ih, List.append_assoc]
    cases options.actsAt? before mark with
    | none => rfl
    | some acts => simp [Option.bind_assoc]

/-- A mark after others adds what the code has to do for it. -/
theorem outline?_concat {options : Options} {before : List Mark} {mark : Mark}
    {acts own : List Act} (h : options.outline? [] before = some acts)
    (hmark : options.actsAt? before mark = some own) :
    options.outline? [] (before ++ [mark]) = some (acts ++ own) := by
  rw [outline?_append, h, List.nil_append, outline?_singleton, hmark]
  rfl

end Options

end SexprSsa
