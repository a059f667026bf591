/-
SexprSsa.Proofs.Scoping — what lowering does to the names in scope.

Scopes are only ever written at their inner end: a declaration binds its name in
the current scope, and a block opens a scope for itself and leaves it. So all
that a lowered expression does to the scopes is told by the variables that it
declares, in the order in which they are lowered, and for each of them by
whether a block of the expression stands around it (`Expr.declarations`).

Nothing is asked of the module, the function under construction or the names
that lowering starts from (`LowerState.Declares` holds of any two states that a
successful lowering leads from and to); building moves slots neither.

Main statement: `lower_scopes`. The scopes further out stay, the names that are
declared in no block are bound to the slot of their last declaration, all other
names stay, and a block leaves every name as it was.
-/
import SexprSsa.Proofs.Construction
import SexprSsa.Proofs.FormSteps
import SexprSsa.Proofs.Marks
import SexprSsa.Proofs.Runs

namespace SexprSsa

/-! ## Declarations -/

/-- A variable that is declared in an expression. -/
structure Declaration where
  name : String
  ty : Ty
  /-- Whether a block of the expression stands around the declaration. -/
  enclosed : Bool
  deriving DecidableEq, Repr

/-- A declaration, with a block around it. -/
def Declaration.enclose (d : Declaration) : Declaration := { d with enclosed := true }

mutual

/-- The variables that an expression declares, in the order in which they are lowered: a variable
comes after those that are declared in its initial value. -/
def Expr.declarations : Expr → List Declaration
  | .list [.symbol "var", target, init] =>
      Expr.declarations init ++ [⟨(Expr.declared target).1, (Expr.declared target).2, false⟩]
  | .list (.symbol "begin" :: operands) =>
      (Expr.declarationsAll operands).map Declaration.enclose
  | .list (.symbol _ :: operands) => Expr.declarationsAll operands
  | _ => []

/-- The variables that operands declare, one operand after the other. -/
def Expr.declarationsAll : List Expr → List Declaration
  | [] => []
  | e :: rest => Expr.declarations e ++ Expr.declarationsAll rest

end

mutual

/-- The variables that a form declares. -/
def Form.declarations : Form → List Declaration
  | .number _ | .truth _ | .text _ | .reference _ | .malformed _ => []
  | .arith _ left right | .compare _ left right => left.declarations ++ right.declarations
  | .declare name ty init => init.declarations ++ [⟨name, ty, false⟩]
  | .assign _ value => value.declarations
  | .block first rest =>
      (first.declarations ++ Form.declarationsAll rest).map Declaration.enclose
  | .print template args => template.declarations ++ Form.declarationsAll args
  | .choose condition yes no => condition.declarations ++ (yes.declarations ++ no.declarations)

/-- The variables that forms declare, one form after the other. -/
def Form.declarationsAll : List Form → List Declaration
  | [] => []
  | f :: rest => f.declarations ++ Form.declarationsAll rest

end

/-- Other lists than declarations and blocks declare what their operands do. -/
theorem Expr.declarations_operands {tag : String} (hvar : tag ≠ "var") (hbegin : tag ≠ "begin")
    (operands : List Expr) :
    Expr.declarations (.list (.symbol tag :: operands)) = Expr.declarationsAll operands := by
  rw [Expr.declarations]
  · intro _ _ _ htag
    exact hvar htag
  · exact hbegin

mutual

/-- The variables of a form are those of the expression. -/
theorem HasForm.declarations_eq {strict : Bool} {e : Expr} : (f : Form) → HasForm strict e f →
    Expr.declarations e = f.declarations
  | .number _, h => by
    cases h
    simp [Expr.declarations, Form.declarations]
  | .truth _, h => by
    cases h <;> simp [Expr.declarations, Form.declarations]
  | .text _, h => by
    cases h
    simp [Expr.declarations, Form.declarations]
  | .reference _, h => by
    cases h
    simp [Expr.declarations, Form.declarations]
  | .arith op l r, h => by
    cases h with
    | arith hleft hright =>
      rw [Expr.declarations_operands (by cases op <;> decide) (by cases op <;> decide)]
      simp [Expr.declarationsAll, Form.declarations, HasForm.declarations_eq l hleft,
        HasForm.declarations_eq r hright]
  | .compare cond l r, h => by
    cases h with
    | compare hleft hright =>
      rw [Expr.declarations_operands (by cases cond <;> decide) (by cases cond <;> decide)]
      simp [Expr.declarationsAll, Form.declarations, HasForm.declarations_eq l hleft,
        HasForm.declarations_eq r hright]
  | .declare _ _ init, h => by
    cases h with
    | declare htarget hinit =>
      simp only [Expr.declarations, Form.declarations, HasForm.declarations_eq init hinit,
        declared_of_declaredBy htarget]
  | .assign _ value, h => by
    cases h with
    | assign hvalue =>
      rw [Expr.declarations_operands (by decide) (by decide)]
      simp [Expr.declarationsAll, Expr.declarations, Form.declarations,
        HasForm.declarations_eq value hvalue]
  | .block first rest, h => by
    cases h with
    | block hfirst hrest =>
      simp only [Expr.declarations, Expr.declarationsAll, Form.declarations,
        HasForm.declarations_eq first hfirst, HaveForms.declarations_eq rest hrest]
  | .print template args, h => by
    cases h with
    | print htemplate hargs =>
      rw [Expr.declarations_operands (by decide) (by decide)]
      simp only [Expr.declarationsAll, Form.declarations,
        HasForm.declarations_eq template htemplate, HaveForms.declarations_eq args hargs]
  | .choose condition yes no, h => by
    cases h with
    | choose hcondition hyes hno =>
      rw [Expr.declarations_operands (by decide) (by decide)]
      simp [Expr.declarationsAll, Form.declarations, HasForm.declarations_eq condition hcondition,
        HasForm.declarations_eq yes hyes, HasForm.declarations_eq no hno]
  | .malformed _, h => by cases h

theorem HaveForms.declarations_eq {strict : Bool} {es : List Expr} : (forms : List Form) →
    HaveForms strict es forms → Expr.declarationsAll es = Form.declarationsAll forms
  | [], h => by
    cases h
    simp only [Expr.declarationsAll, Form.declarationsAll]
  | f :: rest, h => by
    cases h with
    | cons hf hrest =>
      simp only [Expr.declarationsAll, Form.declarationsAll, HasForm.declarations_eq f hf,
        HaveForms.declarations_eq rest hrest]

end

/-! ## Slots and bindings -/

/-- The slots of declared variables: each has the next number. -/
def slotsFrom (next : Nat) (ds : List Declaration) : List StackSlot :=
  ds.mapIdx fun i d => ⟨⟨next + i⟩, d.name, d.ty⟩

theorem slotsFrom_append (next : Nat) (ds more : List Declaration) :
    slotsFrom next (ds ++ more) = slotsFrom next ds ++ slotsFrom (next + ds.length) more := by
  simp only [slotsFrom, List.mapIdx_append, Nat.add_right_comm, Nat.add_assoc]

theorem length_slotsFrom (next : Nat) (ds : List Declaration) :
    (slotsFrom next ds).length = ds.length :=
  List.length_mapIdx

/-- A block around variables does not matter for their slots. -/
theorem slotsFrom_enclose (next : Nat) (ds : List Declaration) :
    slotsFrom next (ds.map Declaration.enclose) = slotsFrom next ds := by
  refine List.ext_getElem? fun i => ?_
  simp only [slotsFrom, List.getElem?_mapIdx, List.getElem?_map, Option.map_map]
  rfl

/-- What declarations bind in the current scope, the newest first: each name that no block encloses
refers to its slot. -/
def boundFrom (next : Nat) : List Declaration → Scope
  | [] => []
  | d :: rest =>
      boundFrom (next + 1) rest ++ if d.enclosed then [] else [(d.name, .slot ⟨next⟩ d.ty)]

theorem boundFrom_append (next : Nat) (ds more : List Declaration) :
    boundFrom next (ds ++ more) = boundFrom (next + ds.length) more ++ boundFrom next ds := by
  induction ds generalizing next with
  | nil => exact (List.append_nil _).symm
  | cons d ds ih =>
    rw [List.cons_append, boundFrom, ih, boundFrom, List.append_assoc, List.length_cons,
      Nat.add_right_comm, Nat.add_assoc]

/-- What a block encloses is not bound after it. -/
theorem boundFrom_enclose (next : Nat) (ds : List Declaration) :
    boundFrom next (ds.map Declaration.enclose) = [] := by
  induction ds generalizing next with
  | nil => rfl
  | cons d ds ih =>
    rw [List.map_cons, boundFrom, ih]
    rfl

/-- A name is not bound if a block encloses each of its declarations. -/
theorem lookup_boundFrom_eq_none {name : String} {ds : List Declaration}
    (h : ∀ d ∈ ds, d.name = name → d.enclosed = true) (next : Nat) :
    (boundFrom next ds).lookup name = none := by
  induction ds generalizing next with
  | nil => rfl
  | cons d ds ih =>
    obtain ⟨hd, hds⟩ := List.forall_mem_cons.1 h
    rw [boundFrom, List.lookup_append, ih hds, Option.none_or]
    cases henclosed : d.enclosed with
    | true => rfl
    | false =>
      have hname : (name == d.name) = false := by
        refine beq_eq_false_iff_ne.2 fun hname => ?_
        rw [hd hname.symm] at henclosed
        cases henclosed
      simp [List.lookup_cons, hname]

/-- A name is bound to the slot of its last declaration that no block encloses. -/
theorem lookup_boundFrom {before after : List Declaration} {d : Declaration}
    (hd : d.enclosed = false) (hlast : ∀ d' ∈ after, d'.name = d.name → d'.enclosed = true)
    (next : Nat) :
    (boundFrom next (before ++ d :: after)).lookup d.name =
      some (.slot ⟨next + before.length⟩ d.ty) := by
  rw [boundFrom_append, List.lookup_append, boundFrom, List.lookup_append,
    lookup_boundFrom_eq_none hlast, hd]
  simp

/-! ## Lowering declares variables -/

namespace Build

theorem stable_slots (slots : List StackSlot) : Body.Stable fun body => body.slots = slots where
  modifyBlock _ _ _ h := h
  relocate _ h := h
  createBlock _ h := h
  freshValue h := h

/-- A computation that changes no slot. -/
def KeepsSlots {α : Type} (x : Build α) : Prop :=
  ∀ slots, Keeps (fun b => b.body.slots = slots) x

theorem KeepsSlots.of_ok {α : Type} {x : Build α} (h : KeepsSlots x) {b b' : Builder} {a : α}
    (hx : x b = (.ok a, b')) : b'.body.slots = b.body.slots := by
  have hkeeps := h b.body.slots b rfl
  rwa [hx] at hkeeps

theorem keepsSlots_compute (i : ValueId → Instr) : KeepsSlots (compute i) :=
  fun slots => (stable_slots slots).keeps_compute i

theorem keepsSlots_insert (i : Instr) : KeepsSlots (insert i) :=
  fun slots => (stable_slots slots).keeps_insert i

theorem keepsSlots_fork (condition : Operand) : KeepsSlots (Lower.fork condition) := by
  intro slots
  have h := stable_slots slots
  exact (h.keeps_createBlock _).bind fun _ => (h.keeps_createBlock _).bind fun _ =>
    (h.keeps_createBlock _).bind fun _ => (h.keeps_seal _).bind fun _ =>
      (Keeps.switchTo (fun _ _ hb => hb) _).bind fun _ => Keeps.pure _

theorem keepsSlots_closeBranch (join next : BlockId) :
    KeepsSlots (Lower.closeBranch join next) := by
  intro slots
  have h := stable_slots slots
  have hcurrent : Keeps (fun b => b.body.slots = slots) currentBlock := fun _ hb => hb
  exact hcurrent.bind fun _ => (h.keeps_seal _).bind fun _ => (h.keeps_moveAfter _ _).bind fun _ =>
    (Keeps.switchTo (fun _ _ hb => hb) _).bind fun _ => Keeps.pure _

theorem keepsSlots_merge (incoming : List (Operand × BlockId)) :
    KeepsSlots (Lower.merge incoming) := by
  intro slots
  have hget : Keeps (fun b => b.body.slots = slots) (get : Build Builder) := fun _ hb => hb
  exact hget.bind fun b => (stable_slots slots).keeps_compute _

theorem keepsSlots_sinkAlloca (i : Instr) : KeepsSlots (update fun b => b.sinkAlloca i) := by
  intro slots
  refine Keeps.update fun b b' h hb => ?_
  simp only [Builder.sinkAlloca] at hb
  split at hb
  · cases hb
  · cases hb
    exact h

/-- An allocation adds one slot, whose number is that of the slots there were. -/
theorem slots_of_alloca {name : String} {ty : Ty} {b b' : Builder} {id : SlotId}
    (h : alloca name ty b = (.ok id, b')) :
    id = ⟨b.body.slots.length⟩ ∧ b'.body.slots = b.body.slots ++ [⟨id, name, ty⟩] := by
  obtain ⟨slot, b₁, hadd, hrest⟩ := exists_of_bind_ok h
  cases hadd
  obtain ⟨_, b₂, hsink, hreturn⟩ := exists_of_bind_ok hrest
  cases hreturn
  exact ⟨rfl, (keepsSlots_sinkAlloca _).of_ok hsink⟩

end Build

/-- Variables have been declared from one state to another: each has the next slot, and those that
no block encloses are bound in the current scope. -/
structure LowerState.Declares (s : LowerState) (ds : List Declaration) (s' : LowerState) :
    Prop where
  slots : s'.builder.body.slots =
    s.builder.body.slots ++ slotsFrom s.builder.body.slots.length ds
  current : s'.scopes.current = boundFrom s.builder.body.slots.length ds ++ s.scopes.current
  outer : s'.scopes.outer = s.scopes.outer

namespace LowerState.Declares

variable {s s' s'' : LowerState} {ds more : List Declaration}

/-- What changes neither slots nor scopes declares nothing. -/
theorem nothing (hslots : s'.builder.body.slots = s.builder.body.slots)
    (hscopes : s'.scopes = s.scopes) : s.Declares [] s' where
  slots := hslots.trans (List.append_nil _).symm
  current := congrArg Scopes.current hscopes
  outer := congrArg Scopes.outer hscopes

theorem trans (h : s.Declares ds s') (h' : s'.Declares more s'') : s.Declares (ds ++ more) s'' where
  slots := by
    rw [h'.slots, h.slots, slotsFrom_append, List.append_assoc, List.length_append,
      length_slotsFrom]
  current := by
    rw [h'.current, h.current, h.slots, boundFrom_append, List.append_assoc, List.length_append,
      length_slotsFrom]
  outer := h'.outer.trans h.outer

/-- What follows declares nothing. -/
theorem then_nothing (h : s.Declares ds s') (h' : s'.Declares [] s'') : s.Declares ds s'' := by
  rw [← List.append_nil ds]
  exact h.trans h'

/-- The scope of a block is left: its variables keep their slots, and their names are gone. -/
theorem enclose (h : s.inner.Declares ds s') :
    s.Declares (ds.map Declaration.enclose) { s' with scopes := s.scopes } where
  slots := by
    rw [slotsFrom_enclose]
    exact h.slots
  current := by rw [boundFrom_enclose, List.nil_append]
  outer := rfl

/-- Leaving the scope of a block brings back the scopes that were there before. -/
theorem pop (h : s.inner.Declares ds s') : s'.scopes.pop = s.scopes := by
  rw [Scopes.pop, h.outer]
  rfl

/-- Building declares nothing. -/
theorem of_build {α : Type} {x : Build α} {a : α} (hx : Build.KeepsSlots x)
    (h : Lower.build x s = (.ok a, s')) : s.Declares [] s' := by
  unfold Lower.build at h
  split at h
  · next b hrun =>
    cases h
    exact nothing (hx.of_ok hrun) rfl
  · cases h

theorem of_readName {name : String} {v : Operand} (h : Lower.readName name s = (.ok v, s')) :
    s.Declares [] s' := by
  obtain ⟨binding, s₁, hresolve, hload⟩ := exists_of_bind_ok h
  obtain rfl := Lower.of_resolve hresolve
  cases binding with
  | value w =>
    cases hload
    exact nothing rfl rfl
  | slot id ty => exact of_build (Build.keepsSlots_compute _) hload
  | global id ty => exact of_build (Build.keepsSlots_compute _) hload

theorem of_assignName {name : String} {v : Operand}
    (h : Lower.assignName name v s = (.ok (), s')) : s.Declares [] s' := by
  obtain ⟨binding, s₁, hresolve, hstore⟩ := exists_of_bind_ok h
  obtain rfl := Lower.of_resolve hresolve
  cases binding with
  | value w => cases hstore
  | slot id ty => exact of_build (Build.keepsSlots_insert _) hstore
  | global id ty => exact of_build (Build.keepsSlots_insert _) hstore

theorem of_declareName {name : String} {ty : Ty} {v : Operand}
    (h : Lower.declareName name ty v s = (.ok (), s')) : s.Declares [⟨name, ty, false⟩] s' := by
  obtain ⟨slot, s₁, halloca, h⟩ := exists_of_bind_ok h
  obtain ⟨_, s₂, hdefine, hstore⟩ := exists_of_bind_ok h
  cases hdefine
  have hbound : s.Declares [⟨name, ty, false⟩]
      { s₁ with scopes := s₁.scopes.define name (.slot slot ty) } := by
    unfold Lower.build at halloca
    split at halloca
    · next id b hrun =>
      cases halloca
      obtain ⟨rfl, hslots⟩ := Build.slots_of_alloca hrun
      exact ⟨hslots, rfl, rfl⟩
    · cases halloca
  exact hbound.then_nothing (of_build (Build.keepsSlots_insert _) hstore)

end LowerState.Declares

mutual

/-- **Lowering a form declares its variables**, and a form that can be lowered is not malformed. -/
theorem Form.lower_declares {s s' : LowerState} {v : Operand} :
    (f : Form) → f.lower s = (.ok v, s') → f.Whole ∧ s.Declares f.declarations s'
  | .number _, h => by
    obtain ⟨-, rfl⟩ := Form.steps h
    simp only [Form.declarations]
    exact ⟨.number, .nothing rfl rfl⟩
  | .truth _, h => by
    obtain ⟨-, rfl⟩ := Form.steps h
    simp only [Form.declarations]
    exact ⟨.truth, .nothing rfl rfl⟩
  | .text _, h => by
    obtain ⟨-, rfl⟩ := Form.steps h
    simp only [Form.declarations]
    exact ⟨.text, .nothing rfl rfl⟩
  | .reference _, h => by
    simp only [Form.declarations]
    exact ⟨.reference, .of_readName (Form.steps h)⟩
  | .arith _ left right, h => by
    obtain ⟨a, s₁, b, s₂, hleft, hright, hbuild⟩ := Form.steps h
    obtain ⟨hwl, hl⟩ := left.lower_declares hleft
    obtain ⟨hwr, hr⟩ := right.lower_declares hright
    simp only [Form.declarations]
    exact ⟨.arith hwl hwr,
      (hl.trans hr).then_nothing (.of_build (Build.keepsSlots_compute _) hbuild)⟩
  | .compare _ left right, h => by
    obtain ⟨a, s₁, b, s₂, hleft, hright, hbuild⟩ := Form.steps h
    obtain ⟨hwl, hl⟩ := left.lower_declares hleft
    obtain ⟨hwr, hr⟩ := right.lower_declares hright
    simp only [Form.declarations]
    exact ⟨.compare hwl hwr,
      (hl.trans hr).then_nothing (.of_build (Build.keepsSlots_compute _) hbuild)⟩
  | .declare name ty init, h => by
    obtain ⟨s₁, hinit, hdeclare⟩ := Form.steps h
    obtain ⟨hwhole, hi⟩ := init.lower_declares hinit
    simp only [Form.declarations]
    exact ⟨.declare hwhole, hi.trans (.of_declareName hdeclare)⟩
  | .assign name value, h => by
    obtain ⟨s₁, hvalue, hassign⟩ := Form.steps h
    obtain ⟨hwhole, hv⟩ := value.lower_declares hvalue
    simp only [Form.declarations]
    exact ⟨.assign hwhole, hv.then_nothing (.of_assignName hassign)⟩
  | .block first rest, h => by
    obtain ⟨w, s₁, ws, s₂, hfirst, hrest, -, rfl⟩ := Form.steps h
    obtain ⟨hwf, hf⟩ := first.lower_declares hfirst
    obtain ⟨hwr, hr⟩ := Form.lowerAll_declares rest hrest
    simp only [Form.declarations]
    exact ⟨.block hwf hwr, (hf.trans hr).enclose⟩
  | .print template args, h => by
    obtain ⟨w, s₁, ws, s₂, -, htemplate, hargs, hcall⟩ := Form.steps h
    obtain ⟨hwt, ht⟩ := template.lower_declares htemplate
    obtain ⟨hwa, ha⟩ := Form.lowerAll_declares args hargs
    simp only [Form.declarations]
    exact ⟨.print hwt hwa,
      (ht.trans ha).then_nothing (.of_build (Build.keepsSlots_compute _) hcall)⟩
  | .choose condition yes no, h => by
    obtain ⟨c, s₁, blocks, s₂, y, s₃, yesEnd, s₄, n, s₅, noEnd, s₆, hcondition, hfork, hyes,
      hyesEnd, hno, hnoEnd, hmerge⟩ := Form.steps h
    obtain ⟨hwc, hc⟩ := condition.lower_declares hcondition
    obtain ⟨hwy, hy⟩ := yes.lower_declares hyes
    obtain ⟨hwn, hn⟩ := no.lower_declares hno
    have hc' := hc.then_nothing (.of_build (Build.keepsSlots_fork c) hfork)
    have hy' := hy.then_nothing (.of_build (Build.keepsSlots_closeBranch _ _) hyesEnd)
    have hn' := hn.then_nothing (.of_build (Build.keepsSlots_closeBranch _ _) hnoEnd)
    simp only [Form.declarations]
    exact ⟨.choose hwc hwy hwn, (hc'.trans (hy'.trans hn')).then_nothing
      (.of_build (Build.keepsSlots_merge _) hmerge)⟩
  | .malformed _, h => (Form.steps h).elim

theorem Form.lowerAll_declares {s s' : LowerState} {vs : List Operand} : (forms : List Form) →
    Form.lowerAll forms s = (.ok vs, s') →
      Form.WholeAll forms ∧ s.Declares (Form.declarationsAll forms) s'
  | [], h => by
    unfold Form.lowerAll at h
    cases h
    simp only [Form.declarationsAll]
    exact ⟨.nil, .nothing rfl rfl⟩
  | form :: rest, h => by
    obtain ⟨w, s₁, ws, hform, hrest, -⟩ := Form.steps_cons h
    obtain ⟨hwf, hf⟩ := form.lower_declares hform
    obtain ⟨hwr, hr⟩ := Form.lowerAll_declares rest hrest
    simp only [Form.declarationsAll]
    exact ⟨.cons hwf hwr, hf.trans hr⟩

end

/-! ## Scopes -/

theorem Scopes.lookup?_eq (scopes : Scopes) (name : String) :
    scopes.lookup? name =
      (scopes.current.lookup name).or (scopes.outer.findSome? fun scope => scope.lookup name) := by
  rw [lookup?, List.findSome?_cons]
  cases scopes.current.lookup name <;> rfl

/-- What lowering an expression does to the scopes and the slots. -/
structure Expr.Rescopes (e : Expr) (s s' : LowerState) : Prop where
  /-- No scope further out is changed. -/
  outer : s'.scopes.outer = s.scopes.outer
  /-- Every variable has a slot of its own, also if a block encloses it. -/
  slots : s'.builder.body.slots =
    s.builder.body.slots ++ slotsFrom s.builder.body.slots.length e.declarations
  /-- A name is bound to the slot of its last declaration that no block encloses. -/
  bound : ∀ before d after, e.declarations = before ++ d :: after → d.enclosed = false →
    (∀ d' ∈ after, d'.name = d.name → d'.enclosed = true) →
      s'.scopes.current.lookup d.name =
          some (.slot ⟨s.builder.body.slots.length + before.length⟩ d.ty) ∧
        s'.scopes.lookup? d.name =
          some (.slot ⟨s.builder.body.slots.length + before.length⟩ d.ty)
  /-- A name without such a declaration refers to what it did before. -/
  kept : ∀ name, (∀ d ∈ e.declarations, d.name = name → d.enclosed = true) →
    s'.scopes.current.lookup name = s.scopes.current.lookup name ∧
      s'.scopes.lookup? name = s.scopes.lookup? name

theorem LowerState.Declares.rescopes {e : Expr} {s s' : LowerState}
    (h : s.Declares e.declarations s') : e.Rescopes s s' where
  outer := h.outer
  slots := h.slots
  bound := by
    intro before d after hsplit hd hlast
    have hcurrent : s'.scopes.current.lookup d.name =
        some (.slot ⟨s.builder.body.slots.length + before.length⟩ d.ty) := by
      rw [h.current, List.lookup_append, hsplit, lookup_boundFrom hd hlast, Option.some_or]
    refine ⟨hcurrent, ?_⟩
    rw [Scopes.lookup?_eq, hcurrent, Option.some_or]
  kept := by
    intro name hname
    have hcurrent : s'.scopes.current.lookup name = s.scopes.current.lookup name := by
      rw [h.current, List.lookup_append, lookup_boundFrom_eq_none hname, Option.none_or]
    refine ⟨hcurrent, ?_⟩
    rw [Scopes.lookup?_eq, Scopes.lookup?_eq, hcurrent, h.outer]

/-- What is left of a block once its scope is left: all that was built in it, and none of its
names. -/
theorem Form.lower_block {first : Form} {rest : List Form} {s s' : LowerState} {v : Operand}
    (h : (Form.block first rest).lower s = (.ok v, s')) :
    ∃ values t, Form.lowerAll (first :: rest) s.inner = (.ok values, t) ∧
      t.scopes.pop = s.scopes ∧ s' = { t with scopes := t.scopes.pop } := by
  obtain ⟨w, s₁, ws, t, hfirst, hrest, -, rfl⟩ := Form.steps h
  have hall : Form.lowerAll (first :: rest) s.inner = (.ok (w :: ws), t) := by
    unfold Form.lowerAll
    rw [bind_of_ok hfirst, bind_of_ok hrest]
    rfl
  have hpop := (Form.lowerAll_declares _ hall).2.pop
  exact ⟨_, t, hall, hpop, by rw [hpop]⟩

/-- **Scopes nest and close.** Lowering an expression changes no scope further out and binds in the
current scope the names that it declares outside of blocks, each to the slot of its last
declaration; all other names refer to what they did before. A block of expressions leaves the scopes
as they were, and everything else as it is after its last expression. -/
theorem lower_scopes {strict : Bool} {e : Expr} {s s' : LowerState} {v : Operand}
    (h : (Form.ofExpr strict e).lower s = (.ok v, s')) :
    e.Rescopes s s' ∧
    ∀ operands, e = .list (.symbol "begin" :: operands) → s'.scopes = s.scopes ∧
      ∃ values t, Form.lowerAll (Form.ofExprs strict operands) s.inner = (.ok values, t) ∧
        t.scopes.pop = s.scopes ∧ s' = { t with scopes := t.scopes.pop } := by
  obtain ⟨hwhole, hdeclares⟩ := Form.lower_declares _ h
  refine ⟨?_, ?_⟩
  · rw [← HasForm.declarations_eq _ (.of_whole e hwhole)] at hdeclares
    exact hdeclares.rescopes
  · rintro operands rfl
    cases operands with
    | nil =>
      have hform : Form.ofExpr strict (.list [.symbol "begin"]) =
          Form.wrongArity "begin" (.atLeast 1) [] := by
        unfold Form.ofExpr
        rfl
      rw [hform] at hwhole
      cases hwhole
    | cons first rest =>
      have hform : Form.ofExpr strict (.list (.symbol "begin" :: first :: rest)) =
          .block (Form.ofExpr strict first) (Form.ofExprs strict rest) := by
        conv_lhs => unfold Form.ofExpr
        rfl
      rw [hform] at h
      obtain ⟨values, t, hall, hpop, hs'⟩ := Form.lower_block h
      have hscopes : s'.scopes = s.scopes := by
        rw [hs']
        exact hpop
      refine ⟨hscopes, values, t, ?_, hpop, hs'⟩
      unfold Form.ofExprs
      exact hall

/-- `(+ (begin (var x 1) (var y 2)) (var x (var z (set x 3))))` -/
def shadowedVariables : Expr :=
  .list [.symbol "+",
    .list [.symbol "begin", .list [.symbol "var", .symbol "x", .number 1],
      .list [.symbol "var", .symbol "y", .number 2]],
    .list [.symbol "var", .symbol "x",
      .list [.symbol "var", .symbol "z", .list [.symbol "set", .symbol "x", .number 3]]]]

/-- A state with a variable in the scope further out and one in the current scope. -/
def nestedState : LowerState where
  module := Module.empty "demo"
  builder := (Builder.start ⟨"main", [], .i32, false⟩).after [.alloca "x" .i32]
  scopes := ⟨[("x", .slot ⟨0⟩ .i32)], [[("y", .global ⟨0⟩ .i32)]]⟩

/-- The name `x` is bound to the fourth of the new variables, and `y` stays what it was further out;
in a block the expression leaves its slots and no names. -/
theorem lower_scopes_shadowed :
    (∃ v s', (Form.ofExpr true shadowedVariables).lower nestedState = (.ok v, s') ∧
      s'.scopes.lookup? "x" = some (.slot ⟨4⟩ .i32) ∧
      s'.scopes.lookup? "z" = some (.slot ⟨3⟩ .i32) ∧
      s'.scopes.lookup? "y" = some (.global ⟨0⟩ .i32)) ∧
    ∃ v s', (Form.ofExpr true (.list [.symbol "begin", shadowedVariables])).lower nestedState =
        (.ok v, s') ∧
      s'.scopes = nestedState.scopes ∧
      s'.builder.body.slots.map StackSlot.name = ["x", "x", "y", "z", "x"] := by
  have hruns (e : Expr) (hok : ((Form.ofExpr true e).lower nestedState).1.isOk = true) :
      ∃ v s', (Form.ofExpr true e).lower nestedState = (.ok v, s') := by
    obtain ⟨v, hv⟩ := exists_of_isOk hok
    exact ⟨v, _, Prod.ext hv rfl⟩
  constructor
  · obtain ⟨v, s', hrun⟩ := hruns shadowedVariables (by decide +kernel)
    have hscopes := (lower_scopes hrun).1
    have hslots : nestedState.builder.body.slots.length = 1 := by decide +kernel
    have hdeclarations : shadowedVariables.declarations =
        [⟨"x", .i32, true⟩, ⟨"y", .i32, true⟩, ⟨"z", .i32, false⟩, ⟨"x", .i32, false⟩] := by
      decide +kernel
    have hx := (hscopes.bound [⟨"x", .i32, true⟩, ⟨"y", .i32, true⟩, ⟨"z", .i32, false⟩]
      ⟨"x", .i32, false⟩ [] hdeclarations rfl (by simp)).2
    have hz := (hscopes.bound [⟨"x", .i32, true⟩, ⟨"y", .i32, true⟩] ⟨"z", .i32, false⟩ _
      hdeclarations rfl (by simp)).2
    have hy := (hscopes.kept "y" (by simp [hdeclarations])).2
    rw [hslots] at hx hz
    exact ⟨v, s', hrun, hx, hz, hy⟩
  · obtain ⟨v, s', hrun⟩ := hruns (.list [.symbol "begin", shadowedVariables]) (by decide +kernel)
    obtain ⟨hscopes, hblock⟩ := lower_scopes hrun
    refine ⟨v, s', hrun, (hblock _ rfl).1, ?_⟩
    rw [hscopes.slots]
    decide +kernel

end SexprSsa
