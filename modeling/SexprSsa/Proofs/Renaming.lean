/-
SexprSsa.Proofs.Renaming — programs and functions under a renaming of variables.

In a program a symbol stands for a variable, for a form or for a type, and
which of these it is depends on its place alone. `Tree.rename` changes the
symbols in the places of variables. It goes through to the forms of the
program (`Form.ofExpr_rename`), because the place also decides what a symbol
means there.

A function knows its variables by number. Their names are kept with the slots
and with the allocations and nowhere else, and no building operation looks at
them: each does to the renamed function what it does to the function
(`Build.Commutes`).
-/
import SexprSsa.Proofs.WellFormed
import Mathlib.Data.List.InsertIdx
import Mathlib.Logic.Function.Basic

namespace SexprSsa

variable {r : String → String}

/-! ## Programs -/

namespace Tree

/-- The target of a declaration, its name renamed. What stands beside the name is a type. -/
def renameTarget (r : String → String) : Expr → Expr
  | .symbol name => .symbol (r name)
  | .list (.symbol name :: rest) => .list (.symbol (r name) :: rest)
  | target => target

mutual

/-- The program with its variables renamed. The heads of lists and the names of types stay. -/
def rename (r : String → String) : Expr → Expr
  | .number n => .number n
  | .text raw => .text raw
  | .symbol name => .symbol (r name)
  | .list [] => .list []
  | .list (.symbol "var" :: target :: rest) =>
      .list (.symbol "var" :: renameTarget r target :: renameAll r rest)
  | .list (head :: operands) => .list (head :: renameAll r operands)

/-- `rename` along a list. -/
def renameAll (r : String → String) : List Expr → List Expr
  | [] => []
  | e :: rest => rename r e :: renameAll r rest

end

@[simp] theorem length_renameAll (es : List Expr) : (renameAll r es).length = es.length := by
  induction es with
  | nil => rfl
  | cons e rest ih => simp [renameAll, ih]

/-- A list stays a list. -/
theorem rename_list (items : List Expr) : ∃ items', (list items).rename r = .list items' := by
  unfold rename
  split <;> simp_all

/-- In a form other than a declaration all operands are renamed alike. -/
theorem rename_form {tag : String} (h : tag ≠ "var") (operands : List Expr) :
    (list (.symbol tag :: operands)).rename r = .list (.symbol tag :: renameAll r operands) := by
  rw [rename]
  rintro target rest ⟨⟩
  exact absurd rfl h

end Tree

/-! ## Errors -/

/-- The same fault about the renamed target. -/
def TargetFault.rename (r : String → String) : TargetFault → TargetFault
  | .notSymbols target => .notSymbols (target.renameTarget r)
  | .notPair target => .notPair (target.renameTarget r)
  | .notName target => .notName (target.renameTarget r)
  | .notVariable target => .notVariable (target.rename r)

/-- The same fault in the renamed expression. -/
def FormFault.rename (r : String → String) : FormFault → FormFault
  | .target fault => .target (fault.rename r)
  | fault => fault

/-- The same error of the renamed program. Only the names of variables that it mentions change. -/
def CompileError.rename (r : String → String) : CompileError → CompileError
  | .malformed fault => .malformed (fault.rename r)
  | .unboundName name => .unboundName (r name)
  | .notAssignable name => .notAssignable (r name)
  | e => e

/-! ## Forms -/

namespace Form

mutual

/-- The form with its variables renamed. -/
def rename (r : String → String) : Form → Form
  | .number value => .number value
  | .truth value => .truth value
  | .text value => .text value
  | .reference name => .reference (r name)
  | .arith op left right => .arith op (rename r left) (rename r right)
  | .compare cond left right => .compare cond (rename r left) (rename r right)
  | .declare name ty init => .declare (r name) ty (rename r init)
  | .assign name value => .assign (r name) (rename r value)
  | .block first rest => .block (rename r first) (renameAll r rest)
  | .print template args => .print (rename r template) (renameAll r args)
  | .choose condition yes no => .choose (rename r condition) (rename r yes) (rename r no)
  | .malformed fault => .malformed (fault.rename r)

/-- `rename` along a list. -/
def renameAll (r : String → String) : List Form → List Form
  | [] => []
  | form :: rest => rename r form :: renameAll r rest

end

theorem ofNumber_rename (n : Int64) : (ofNumber n).rename r = ofNumber n := by
  unfold ofNumber
  dsimp only
  split <;> simp [rename, FormFault.rename]

theorem ofSymbol_rename (hr : Function.Injective r) (htrue : r "true" = "true")
    (hfalse : r "false" = "false") (name : String) :
    ofSymbol (r name) = (ofSymbol name).rename r := by
  by_cases ht : name = "true"
  · subst ht
    rw [htrue]
    simp [ofSymbol, rename]
  · by_cases hf : name = "false"
    · subst hf
      rw [hfalse]
      simp [ofSymbol, rename]
    · have ht' : r name ≠ "true" := fun h => ht (hr (h.trans htrue.symm))
      have hf' : r name ≠ "false" := fun h => hf (hr (h.trans hfalse.symm))
      simp [ofSymbol, rename]

/-- The renamed target of a declaration gives the renamed variable, of the same type. -/
theorem declaredBy_rename (strict : Bool) (target : Expr) :
    declaredBy strict (target.renameTarget r) =
      match declaredBy strict target with
      | .ok (name, ty) => .ok (r name, ty)
      | .error fault => .error (fault.rename r) := by
  have hty (name other : String) : (do return (r name, ← resolveTy strict other)) =
      match (do return (name, ← resolveTy strict other) : Except FormFault (String × Ty)) with
      | .ok (name, ty) => .ok (r name, ty)
      | .error fault => .error (fault.rename r) := by
    unfold resolveTy
    split
    · rfl
    · rfl
    · cases strict <;> rfl
  match target with
  | .number n => rfl
  | .text raw => rfl
  | .symbol name => rfl
  | .list [] => rfl
  | .list [.symbol name] => rfl
  | .list [.symbol name, .symbol other] => exact hty name other
  | .list [.symbol name, .number n] => rfl
  | .list [.symbol name, .text raw] => rfl
  | .list [.symbol name, .list items] => rfl
  | .list (.symbol name :: a :: b :: rest) => cases a <;> rfl
  | .list (.number n :: rest) => rcases rest with _ | ⟨b, _ | ⟨c, rest⟩⟩ <;> rfl
  | .list (.text raw :: rest) => rcases rest with _ | ⟨b, _ | ⟨c, rest⟩⟩ <;> rfl
  | .list (.list items :: rest) => rcases rest with _ | ⟨b, _ | ⟨c, rest⟩⟩ <;> rfl

/-- A list means what it did, with the variables renamed, if its operands do. -/
theorem ofExpr_list_rename {strict : Bool} (tag : String) {operands : List Expr}
    (h : ofExprs strict (Tree.renameAll r operands) = renameAll r (ofExprs strict operands)) :
    ofExpr strict ((Tree.list (.symbol tag :: operands)).rename r) =
      (ofExpr strict (.list (.symbol tag :: operands))).rename r := by
  by_cases htag : tag = "var"
  · subst htag
    rcases operands with _ | ⟨target, _ | ⟨init, _ | ⟨a, rest⟩⟩⟩
    · rfl
    · rfl
    · simp only [Tree.renameAll, ofExprs, renameAll, List.cons.injEq, and_true] at h
      simp only [Tree.rename, Tree.renameAll, ofExpr, Keyword.ofTag?, declaredBy_rename]
      cases declaredBy strict target with
      | error fault => simp [rename]
      | ok p => simp [rename, h]
    · simp [Tree.rename, Tree.renameAll, ofExpr, Keyword.ofTag?, wrongArity, rename,
        FormFault.rename]
  · rw [Tree.rename_form htag]
    unfold ofExpr
    cases hkeyword : Keyword.ofTag? tag with
    | none => rfl
    | some keyword =>
      cases keyword with
      | declare => exact absurd (Keyword.eq_tag hkeyword) htag
      | arith op | compare cond =>
        rcases operands with _ | ⟨left, _ | ⟨right, _ | ⟨a, rest⟩⟩⟩
        · rfl
        · rfl
        · simp only [Tree.renameAll, ofExprs, renameAll, List.cons.injEq, and_true] at h
          simp only [Tree.renameAll, rename, h]
        · simp [Tree.renameAll, wrongArity, rename, FormFault.rename]
      | assign =>
        rcases operands with _ | ⟨target, _ | ⟨value, _ | ⟨a, rest⟩⟩⟩
        · rfl
        · cases target <;> simp [Tree.renameAll, wrongArity, rename, FormFault.rename]
        · simp only [Tree.renameAll, ofExprs, renameAll, List.cons.injEq, and_true] at h
          cases target with
          | symbol name => simp only [Tree.renameAll, Tree.rename, rename, h]
          | number n => rfl
          | text raw => rfl
          | list items =>
            obtain ⟨items', hitems⟩ := Tree.rename_list (r := r) items
            simp [Tree.renameAll, rename, FormFault.rename, TargetFault.rename, hitems]
        · cases target <;> simp [Tree.renameAll, wrongArity, rename, FormFault.rename]
      | block | print =>
        rcases operands with _ | ⟨first, rest⟩
        · rfl
        · simp only [Tree.renameAll, ofExprs, renameAll, List.cons.injEq] at h
          simp only [Tree.renameAll, rename, h]
      | choose =>
        rcases operands with _ | ⟨condition, _ | ⟨yes, _ | ⟨no, _ | ⟨a, rest⟩⟩⟩⟩
        · rfl
        · rfl
        · rfl
        · simp only [Tree.renameAll, ofExprs, renameAll, List.cons.injEq, and_true] at h
          simp only [Tree.renameAll, rename, h]
        · simp [Tree.renameAll, wrongArity, rename, FormFault.rename]

mutual

/-- **A renamed program means what the program means, with the variables renamed.** -/
theorem ofExpr_rename (hr : Function.Injective r) (htrue : r "true" = "true")
    (hfalse : r "false" = "false") (strict : Bool) :
    (e : Expr) → ofExpr strict (e.rename r) = (ofExpr strict e).rename r
  | .number n => by
    rw [Tree.rename, ofExpr, ofNumber_rename]
  | .text raw => by
    rw [Tree.rename, ofExpr, rename]
  | .symbol name => by
    rw [Tree.rename, ofExpr, ofExpr, ofSymbol_rename hr htrue hfalse]
  | .list [] => by
    rw [Tree.rename, ofExpr, rename]
    rfl
  | .list (.symbol tag :: operands) => by
    exact ofExpr_list_rename tag (ofExprs_rename hr htrue hfalse strict operands)
  | .list (.number n :: operands) => by
    simp [Tree.rename, ofExpr, rename, FormFault.rename]
  | .list (.text raw :: operands) => by
    simp [Tree.rename, ofExpr, rename, FormFault.rename]
  | .list (.list items :: operands) => by
    simp [Tree.rename, ofExpr, rename, FormFault.rename]

theorem ofExprs_rename (hr : Function.Injective r) (htrue : r "true" = "true")
    (hfalse : r "false" = "false") (strict : Bool) :
    (es : List Expr) → ofExprs strict (Tree.renameAll r es) = renameAll r (ofExprs strict es)
  | [] => rfl
  | e :: rest => by
    rw [Tree.renameAll, ofExprs, ofExprs, renameAll, ofExpr_rename hr htrue hfalse strict e,
      ofExprs_rename hr htrue hfalse strict rest]

end

end Form

/-! ## Tables -/

namespace Table

variable {κ α β : Type}

/-- Changes all values of a table. -/
def mapValues (f : α → β) (t : Table κ α) : Table κ β where
  entries := t.entries.map fun e => (e.1, f e.2)
  nodup_keys := by
    rw [List.map_map]
    exact t.nodup_keys

variable [DecidableEq κ]

theorem lookupIn_map (f : α → β) (k : κ) (l : List (κ × α)) :
    lookupIn k (l.map fun e => (e.1, f e.2)) = (lookupIn k l).map f := by
  induction l with
  | nil => rfl
  | cons e rest ih =>
    by_cases h : e.1 = k <;> simp [lookupIn, h, ih]

theorem storeIn_map (f : α → β) (k : κ) (a : α) (l : List (κ × α)) :
    (storeIn k a l).map (fun e => (e.1, f e.2)) = storeIn k (f a) (l.map fun e => (e.1, f e.2)) := by
  induction l with
  | nil => rfl
  | cons e rest ih =>
    by_cases h : e.1 = k <;> simp [storeIn, h, ih]

@[simp] theorem find?_mapValues (f : α → β) (t : Table κ α) (k : κ) :
    (t.mapValues f).find? k = (t.find? k).map f := lookupIn_map f k t.entries

@[simp] theorem mapValues_insert (f : α → β) (t : Table κ α) (k : κ) (a : α) :
    (t.insert k a).mapValues f = (t.mapValues f).insert k (f a) :=
  ext (storeIn_map f k a t.entries)

theorem mapValues_modify {f : α → β} (t : Table κ α) (k : κ) (g : α → α) (g' : β → β)
    (h : ∀ a, f (g a) = g' (f a)) : (t.modify k g).mapValues f = (t.mapValues f).modify k g' := by
  refine ext ?_
  simp only [mapValues, modify, List.map_map]
  refine List.map_congr_left fun e _ => ?_
  by_cases hk : e.1 = k <;> simp [hk, h]

end Table

/-! ## Functions -/

/-- An allocation bears the name of its slot. -/
def Instr.renameSlots (r : String → String) : Instr → Instr
  | .alloca slot ty name => .alloca slot ty (r name)
  | i => i

/-- The block with the names of the slots that it allocates renamed. -/
def Block.renameSlots (r : String → String) (b : Block) : Block :=
  { b with instrs := b.instrs.map (Instr.renameSlots r) }

/-- The slot under its new name. -/
def StackSlot.rename (r : String → String) (s : StackSlot) : StackSlot :=
  { s with name := r s.name }

/-- The body with its slots renamed, in the list of the slots and where they are allocated. -/
def Body.renameSlots (r : String → String) (body : Body) : Body :=
  { body with
    blocks := body.blocks.mapValues (Block.renameSlots r)
    slots := body.slots.map (StackSlot.rename r) }

/-- The function with its slots renamed. -/
def Func.renameSlots (r : String → String) (f : Func) : Func :=
  { f with body := f.body.map (Body.renameSlots r) }

/-- The module with the slots of its functions renamed, and nothing else. -/
def Module.renameSlots (r : String → String) (m : Module) : Module :=
  { m with functions := m.functions.mapValues (Func.renameSlots r) }

/-- The function under construction with its slots renamed. -/
def Builder.renameSlots (r : String → String) (b : Builder) : Builder :=
  { b with body := b.body.renameSlots r }

theorem Cursor.place_rename (cursor : Cursor) (i : Instr) (instrs : List Instr) :
    cursor.place (i.renameSlots r) (instrs.map (Instr.renameSlots r)) =
      ((cursor.place i instrs).1.map (Instr.renameSlots r), (cursor.place i instrs).2) := by
  cases cursor with
  | blockStart b => rfl
  | blockEnd b => simp [place]
  | after b index => simp [place, List.map_insertIdx]

@[simp] theorem Body.block?_renameSlots (body : Body) (q : BlockId) :
    (body.renameSlots r).block? q = (body.block? q).map (Block.renameSlots r) :=
  Table.find?_mapValues ..

theorem Body.setInstrs_renameSlots (body : Body) (q : BlockId) (instrs : List Instr) :
    (body.modifyBlock q fun b => { b with instrs }).renameSlots r =
      (body.renameSlots r).modifyBlock q
        fun b => { b with instrs := instrs.map (Instr.renameSlots r) } := by
  have hblocks := body.blocks.mapValues_modify q (fun b => { b with instrs })
    (fun b => { b with instrs := instrs.map (Instr.renameSlots r) })
    (f := Block.renameSlots r) fun b => rfl
  simp only [modifyBlock, renameSlots, hblocks]

theorem Body.setTerminator_renameSlots (body : Body) (q : BlockId) (terminator : Terminator) :
    (body.modifyBlock q fun b => { b with terminator }).renameSlots r =
      (body.renameSlots r).modifyBlock q fun b => { b with terminator } := by
  have hblocks := body.blocks.mapValues_modify q (fun b => { b with terminator })
    (fun b => { b with terminator }) (f := Block.renameSlots r) fun b => rfl
  simp only [modifyBlock, renameSlots, hblocks]

/-! ## Building -/

namespace Build

/-- The second operation does to the renamed function what the first does to the function. -/
def Commutes (r : String → String) {α : Type} (x x' : Build α) : Prop :=
  ∀ b : Builder, x' (b.renameSlots r) = ((x b).1, (x b).2.renameSlots r)

namespace Commutes

variable {α β : Type} {x x' : Build α}

theorem pure (a : α) : Commutes r (Pure.pure a) (Pure.pure a) := fun _ => rfl

theorem bind {f f' : α → Build β} (hx : Commutes r x x') (hf : ∀ a, Commutes r (f a) (f' a)) :
    Commutes r (x >>= f) (x' >>= f') := by
  intro b
  have hx := hx b
  rcases hrun : x b with ⟨e | a, b'⟩
  · rw [hrun] at hx
    rw [bind_of_error hrun, bind_of_error hx]
  · rw [hrun] at hx
    rw [bind_of_ok hrun, bind_of_ok hx, hf a b']

theorem update {f f' : Builder → Except BuildError Builder}
    (h : ∀ b : Builder, f' (b.renameSlots r) = (f b).map (Builder.renameSlots r)) :
    Commutes r (Build.update f) (Build.update f') := by
  intro b
  unfold Build.update
  rw [h b]
  cases f b <;> rfl

end Commutes

theorem commutes_insert (i : Instr) : Commutes r (insert i) (insert (i.renameSlots r)) := by
  refine .update fun b => ?_
  unfold Builder.inserted
  simp only [Builder.renameSlots, Body.block?_renameSlots]
  cases b.body.block? b.cursor.block with
  | none => rfl
  | some block =>
    rw [apply_ite (Except.map _)]
    refine if_congr Iff.rfl rfl ?_
    simp only [Except.map, Builder.renameSlots, Body.setInstrs_renameSlots, Block.renameSlots,
      Cursor.place_rename]

/-- Nothing that computes a value bears the name of a slot. -/
theorem commutes_compute {i : ValueId → Instr} (h : ∀ v, (i v).renameSlots r = i v) :
    Commutes r (compute i) (compute i) := by
  refine .bind (fun b => rfl) fun v => .bind ?_ fun _ => .pure _
  have hinsert := commutes_insert (r := r) (i v)
  rwa [h] at hinsert

theorem commutes_store (address value : Operand) :
    Commutes r (store address value) (store address value) :=
  commutes_insert (.store address value)

/-- The new slot and its allocation get the new name. -/
theorem commutes_alloca (name : String) (ty : Ty) :
    Commutes r (alloca name ty) (alloca (r name) ty) := by
  refine .bind (fun b => ?_) fun slot => .bind (.update fun b => ?_) fun _ => .pure _
  · simp [Builder.renameSlots, Body.renameSlots, Body.addSlot, StackSlot.rename]
  · unfold Builder.sinkAlloca
    have hentry : (b.body.renameSlots r).entry = b.body.entry := rfl
    simp only [Builder.renameSlots, Body.block?_renameSlots, hentry]
    cases b.body.block? b.body.entry with
    | none => rfl
    | some block =>
      simp only [Option.map_some, Except.map, Builder.renameSlots, Block.renameSlots,
        Body.setInstrs_renameSlots, List.length_map, List.map_insertIdx]
      rfl

theorem commutes_seal (t : Terminator) :
    Commutes r (Build.update fun b => b.sealed t) (Build.update fun b => b.sealed t) := by
  refine .update fun b => ?_
  unfold Builder.sealed
  simp only [Builder.renameSlots, Body.block?_renameSlots]
  cases b.body.block? b.cursor.block with
  | none => rfl
  | some block =>
    rw [apply_ite (Except.map _)]
    refine if_congr Iff.rfl rfl ?_
    simp only [Except.map, Builder.renameSlots, Body.setTerminator_renameSlots]

theorem commutes_createBlock (name : String) :
    Commutes r (createBlock name) (createBlock name) := by
  intro b
  simp [createBlock, Body.createBlock, Builder.renameSlots, Body.renameSlots, Block.renameSlots,
    Block.opened]

theorem commutes_switchTo (q : BlockId) : Commutes r (switchTo q) (switchTo q) := by
  refine .update fun b => ?_
  simp only [Builder.renameSlots, Body.block?_renameSlots]
  cases b.body.block? q <;> rfl

theorem commutes_currentBlock : Commutes r currentBlock currentBlock := fun _ => rfl

theorem commutes_moveAfter (block anchor : BlockId) :
    Commutes r (moveAfter block anchor) (moveAfter block anchor) := by
  refine .update fun b => ?_
  simp only [Body.moveAfter, Builder.renameSlots, Body.renameSlots]
  cases relocate b.body.layout block anchor <;> rfl

end Build

end SexprSsa
