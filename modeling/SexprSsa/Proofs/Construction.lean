/-
SexprSsa.Proofs.Construction — functions and modules that can be built.

A function is built by operations in any order, with any operands and the
cursor anywhere; an operation may fail, and the building goes on from the
builder that it leaves. `Operation` lists what can be done. A module is built
from functions that were finished so, and from variables, strings and
declarations (`Module.Built`).

The order of the blocks is one of the properties that last while blocks are
opened, filled and moved and values drawn (`Body.Stable`). For each of them it is
shown once that the operations keep it.

Main statements: `Orderly.build`, the blocks of a function under construction
are numbered without gaps from the entry block on and the layout lists each
of them once, whatever is done; `Module.Built.orderly`, so they are in every
function of a built module.
-/
import SexprSsa.Proofs.Effects
import SexprSsa.Ir.Builder

namespace SexprSsa

/-! ## Operations -/

/-- What can be done to a function under construction. -/
inductive Operation where
  | createBlock (name : String)
  | switchTo (block : BlockId)
  | gotoStart (block : BlockId)
  | gotoEnd (block : BlockId)
  | moveAfter (block anchor : BlockId)
  | arith (op : ArithOp) (left right : Operand)
  | compare (cond : Cond) (left right : Operand)
  | load (ty : Ty) (address : Operand)
  | store (address value : Operand)
  | call (callee : String) (args : List Operand)
  | phi (ty : Ty) (incoming : List (Operand × BlockId))
  | alloca (name : String) (ty : Ty)
  | jump (target : BlockId)
  | branch (condition : Operand) (yes no : BlockId)
  | ret (value : Option Operand)
  deriving DecidableEq, Repr

namespace Operation

/-- Does an operation and forgets what it returns. -/
def perform : Operation → Build Unit
  | .createBlock name => do let _ ← Build.createBlock name
  | .switchTo block => Build.switchTo block
  | .gotoStart block => Build.gotoStart block
  | .gotoEnd block => Build.gotoEnd block
  | .moveAfter block anchor => Build.moveAfter block anchor
  | .arith op left right => do let _ ← Build.arith op left right
  | .compare cond left right => do let _ ← Build.compare cond left right
  | .load ty address => do let _ ← Build.load ty address
  | .store address value => Build.store address value
  | .call callee args => do let _ ← Build.call callee args
  | .phi ty incoming => do let _ ← Build.phi ty incoming
  | .alloca name ty => do let _ ← Build.alloca name ty
  | .jump target => Build.jump target
  | .branch condition yes no => Build.branch condition yes no
  | .ret value => Build.ret value

/-- The builder that an operation leaves, whether or not it fails. -/
def apply (op : Operation) (b : Builder) : Builder := (op.perform b).2

end Operation

/-- The builder that operations leave, done one after the other. -/
def Builder.after (b : Builder) (ops : List Operation) : Builder :=
  ops.foldl (fun b op => op.apply b) b

/-! ## What every computation keeps -/

section
variable {ε σ α β : Type}

/-- Whatever a computation leaves, also by failing, has a property that was there before. -/
def Keeps (inv : σ → Prop) (x : ExceptT ε (StateM σ) α) : Prop := ∀ s, inv s → inv (x s).2

namespace Keeps

variable {inv : σ → Prop} {x : ExceptT ε (StateM σ) α}

theorem pure (a : α) : Keeps inv (Pure.pure a : ExceptT ε (StateM σ) α) := fun _ h => h

theorem bind {f : α → ExceptT ε (StateM σ) β} (hx : Keeps inv x) (hf : ∀ a, Keeps inv (f a)) :
    Keeps inv (x >>= f) := by
  intro s hs
  have hx := hx s hs
  rcases h : x s with ⟨e | a, s'⟩
  · rw [bind_of_error h]
    rwa [h] at hx
  · rw [bind_of_ok h]
    rw [h] at hx
    exact hf a s' hx

end Keeps

end

/-- An update keeps what every builder has that it can lead to. -/
theorem Keeps.update {inv : Builder → Prop} {f : Builder → Except BuildError Builder}
    (h : ∀ b b', inv b → f b = .ok b' → inv b') : Keeps inv (Build.update f) := by
  intro b hb
  rcases hf : f b with e | b'
  · rwa [Build.update_of_error hf]
  · rw [Build.update_of_ok hf]
    exact h b b' hb hf

/-- Going to the end of a block keeps what does not depend on the cursor. -/
theorem Keeps.switchTo {inv : Builder → Prop}
    (h : ∀ (b : Builder) (cursor : Cursor), inv b → inv { b with cursor }) (q : BlockId) :
    Keeps inv (Build.switchTo q) := by
  refine Keeps.update fun b b' hinv hb => ?_
  cases hq : b.body.block? q with
  | none => simp [hq] at hb
  | some blk =>
    simp only [hq, Except.ok.injEq] at hb
    subst hb
    exact h b _ hinv

/-! ## The order of the blocks -/

namespace Body

/-- The blocks are numbered without gaps, the entry block first; each has its number, and the
layout lists each once. -/
structure Orderly (body : Body) : Prop where
  entry : body.entry = ⟨0⟩
  inhabited : 0 < body.nextBlock
  keys : body.blocks.keys = (List.range body.nextBlock).map BlockId.mk
  ids : ∀ {q b}, body.block? q = some b → b.id = q
  layout : body.layout.Perm body.blocks.keys

namespace Orderly

variable {body : Body}

theorem initial : Body.initial.Orderly where
  entry := rfl
  inhabited := by decide
  keys := rfl
  ids {q b} h := by
    unfold Body.initial Body.block? at h
    rw [Table.find?_insert] at h
    split at h
    · next hq =>
      cases h
      exact hq
    · cases h
  layout := .refl _

theorem mem_keys (h : body.Orderly) {q : BlockId} :
    q ∈ body.blocks.keys ↔ q.index < body.nextBlock := by
  obtain ⟨n⟩ := q
  rw [h.keys]
  simp

theorem exists_entry (h : body.Orderly) : ∃ b, body.block? body.entry = some b := by
  refine (body.blocks.mem_keys_iff _).1 (h.mem_keys.2 ?_)
  rw [h.entry]
  exact h.inhabited

/-- The layout shows the blocks and nothing else. -/
theorem mem_laidOut (h : body.Orderly) {b : Block} :
    b ∈ body.laidOut ↔ body.block? b.id = some b := by
  unfold Body.laidOut
  rw [List.mem_filterMap]
  constructor
  · rintro ⟨q, -, hq⟩
    rwa [h.ids hq]
  · intro hb
    have hkey : b.id ∈ body.blocks.keys := (body.blocks.mem_keys_iff _).2 ⟨b, hb⟩
    exact ⟨b.id, h.layout.mem_iff.2 hkey, hb⟩

/-- The block that control leaves is a predecessor of the one that it goes to. -/
theorem mem_predecessors (h : body.Orderly) {p q : BlockId} {b : Block}
    (hb : body.block? p = some b) (hq : q ∈ b.successors) : p ∈ body.predecessors q := by
  obtain rfl := h.ids hb
  refine List.mem_map.2 ⟨b, List.mem_filter.2 ⟨h.mem_laidOut.2 hb, ?_⟩, rfl⟩
  simpa using hq

/-- Blocks may change as long as they keep their numbers. -/
theorem modifyBlock (h : body.Orderly) (q : BlockId) {f : Block → Block}
    (hid : ∀ b, (f b).id = b.id) : (body.modifyBlock q f).Orderly where
  entry := h.entry
  inhabited := h.inhabited
  keys := (Body.keys_modifyBlock body q f).trans h.keys
  ids {p b} hp := by
    rw [Body.block?_modifyBlock] at hp
    split at hp
    · obtain ⟨old, hold, rfl⟩ := Option.map_eq_some_iff.1 hp
      rw [hid]
      exact h.ids hold
    · exact h.ids hp
  layout := by
    rw [Body.keys_modifyBlock]
    exact h.layout

theorem createBlock (h : body.Orderly) (name : String) : (body.createBlock name).2.Orderly := by
  have hfresh : ⟨body.nextBlock⟩ ∉ body.blocks.keys := by
    rw [h.mem_keys]
    simp
  have hkeys : (body.createBlock name).2.blocks.keys = body.blocks.keys ++ [⟨body.nextBlock⟩] := by
    change (body.blocks.insert _ _).keys = _
    rw [Table.keys_insert, if_neg hfresh]
  refine ⟨h.entry, Nat.succ_pos _, ?_, fun {q b} hq => ?_, ?_⟩
  · rw [hkeys, h.keys]
    simp [Body.createBlock, List.range_succ]
  · rw [Body.block?_createBlock] at hq
    split at hq
    · cases hq
      rfl
    · exact h.ids hq
  · rw [hkeys]
    exact h.layout.append_right _

theorem relocate (h : body.Orderly) {layout : List BlockId} (hl : layout.Perm body.layout) :
    Body.Orderly { body with layout } :=
  { h with layout := hl.trans h.layout }

theorem freshValue (h : body.Orderly) : body.freshValue.2.Orderly := { h with }

theorem addSlot (h : body.Orderly) (name : String) (ty : Ty) : (body.addSlot name ty).2.Orderly :=
  { h with }

end Orderly

end Body

/-! ## Building keeps the order -/

namespace Body

/-- A property of bodies that lasts while blocks are opened, filled and moved and values drawn. -/
structure Stable (inv : Body → Prop) : Prop where
  modifyBlock {body : Body} (q : BlockId) {f : Block → Block} :
    (∀ b, (f b).id = b.id) → inv body → inv (body.modifyBlock q f)
  relocate {body : Body} {layout : List BlockId} :
    layout.Perm body.layout → inv body → inv { body with layout }
  createBlock {body : Body} (name : String) : inv body → inv (body.createBlock name).2
  freshValue {body : Body} : inv body → inv body.freshValue.2

namespace Stable

variable {inv : Body → Prop} (h : Stable inv)
include h

theorem keeps_insert (i : Instr) : Keeps (fun b => inv b.body) (Build.insert i) := by
  refine Keeps.update fun b b' hinv hb => ?_
  simp only [Builder.inserted] at hb
  split at hb
  · cases hb
  · split at hb
    · cases hb
    · cases hb
      exact h.modifyBlock _ (fun _ => rfl) hinv

theorem keeps_compute (i : ValueId → Instr) : Keeps (fun b => inv b.body) (Build.compute i) := by
  refine Keeps.bind (fun b hinv => h.freshValue hinv) fun result => ?_
  exact Keeps.bind (h.keeps_insert (i result)) fun _ => Keeps.pure _

theorem keeps_seal (t : Terminator) :
    Keeps (fun b => inv b.body) (Build.update fun b => b.sealed t) := by
  refine Keeps.update fun b b' hinv hb => ?_
  simp only [Builder.sealed] at hb
  split at hb
  · cases hb
  · split at hb
    · cases hb
    · cases hb
      exact h.modifyBlock _ (fun _ => rfl) hinv

theorem keeps_createBlock (name : String) :
    Keeps (fun b => inv b.body) (Build.createBlock name) :=
  fun _ hinv => h.createBlock name hinv

theorem keeps_moveAfter (q anchor : BlockId) :
    Keeps (fun b => inv b.body) (Build.moveAfter q anchor) := by
  refine Keeps.update fun b b' hinv hb => ?_
  cases hmoved : SexprSsa.relocate b.body.layout q anchor with
  | error e =>
    simp only [Body.moveAfter, hmoved] at hb
    cases hb
  | ok layout =>
    simp only [Body.moveAfter, hmoved] at hb
    cases hb
    exact h.relocate (relocate_perm hmoved) hinv

end Stable

theorem Orderly.stable : Stable Orderly where
  modifyBlock q _ hid h := h.modifyBlock q hid
  relocate hl h := h.relocate hl
  createBlock name h := h.createBlock name
  freshValue h := h.freshValue

end Body

namespace Build

/-- The order of the blocks of the body under construction. -/
abbrev KeepsOrder {α : Type} (x : Build α) : Prop := Keeps (fun b => b.body.Orderly) x

theorem keepsOrder_alloca (name : String) (ty : Ty) : KeepsOrder (alloca name ty) := by
  refine Keeps.bind (fun b h => h.addSlot name ty) fun slot => ?_
  refine Keeps.bind (Keeps.update fun b b' h hb => ?_) fun _ => Keeps.pure _
  simp only [Builder.sinkAlloca] at hb
  split at hb
  · cases hb
  · cases hb
    exact h.modifyBlock _ fun _ => rfl

end Build

/-- Every operation keeps the order of the blocks. -/
theorem Operation.keepsOrder (op : Operation) : Build.KeepsOrder op.perform := by
  cases op with
  | createBlock name => exact (Body.Orderly.stable.keeps_createBlock name).bind fun _ => Keeps.pure _
  | switchTo q => exact Keeps.switchTo (fun _ _ h => h) q
  | gotoStart q =>
    refine Keeps.update fun b b' h hb => ?_
    cases hb
    exact h
  | gotoEnd q =>
    refine Keeps.update fun b b' h hb => ?_
    cases hb
    exact h
  | moveAfter q anchor => exact Body.Orderly.stable.keeps_moveAfter q anchor
  | arith op left right => exact (Body.Orderly.stable.keeps_compute _).bind fun _ => Keeps.pure _
  | compare cond left right => exact (Body.Orderly.stable.keeps_compute _).bind fun _ => Keeps.pure _
  | load ty address => exact (Body.Orderly.stable.keeps_compute _).bind fun _ => Keeps.pure _
  | store address value => exact Body.Orderly.stable.keeps_insert _
  | call callee args => exact (Body.Orderly.stable.keeps_compute _).bind fun _ => Keeps.pure _
  | phi ty incoming => exact (Body.Orderly.stable.keeps_compute _).bind fun _ => Keeps.pure _
  | alloca name ty => exact (Build.keepsOrder_alloca name ty).bind fun _ => Keeps.pure _
  | jump target => exact Body.Orderly.stable.keeps_seal _
  | branch condition yes no => exact Body.Orderly.stable.keeps_seal _
  | ret value => exact Body.Orderly.stable.keeps_seal _

/-- **Whatever is done while a function is built, its blocks stay in order.** -/
theorem Body.Orderly.build (signature : Signature) (ops : List Operation) :
    ((Builder.start signature).after ops).body.Orderly := by
  have hafter : ∀ b : Builder, b.body.Orderly → (b.after ops).body.Orderly := by
    induction ops with
    | nil => exact fun b h => h
    | cons op ops ih => exact fun b h => ih (op.apply b) (op.keepsOrder b h)
  exact hafter _ Body.Orderly.initial

/-! ## Modules -/

namespace Module

/-- A module put together from nothing, by steps that succeed; a step that fails changes
nothing. -/
inductive Built : Module → Prop
  | empty (name : String) : Built (.empty name)
  | addGlobal {m m' : Module} {name : String} {initial : Constant} {id : GlobalId} :
      Built m → m.addGlobal name initial = .ok (id, m') → Built m'
  | addString {m : Module} (value : String) : Built m → Built (m.addString value).2
  | declare {m m' : Module} {signature : Signature} :
      Built m → m.declare signature = .ok m' → Built m'
  | define {m m' : Module} {signature : Signature} {ops : List Operation} {f : Func} :
      Built m → ((Builder.start signature).after ops).finish = .ok f →
      m.define f = .ok m' → Built m'

/-- The blocks of every function of a module are in order. -/
def Orderly (m : Module) : Prop :=
  ∀ name f body, m.func? name = some f → f.body = some body → body.Orderly

section
variable {m m' : Module}

theorem Orderly.of_functions (h : m.Orderly) (hfunctions : m'.functions = m.functions) :
    m'.Orderly := by
  intro name f body hf hbody
  rw [func?, hfunctions] at hf
  exact h name f body hf hbody

theorem Orderly.insert (h : m.Orderly) {name : String} {f : Func}
    (hf : ∀ body, f.body = some body → body.Orderly) :
    Orderly { m with functions := m.functions.insert name f } := by
  intro other g body hg hbody
  change (m.functions.insert name f).find? other = some g at hg
  rw [Table.find?_insert] at hg
  split at hg
  · cases hg
    exact hf body hbody
  · exact h other g body hg hbody

theorem functions_addGlobal {name : String} {initial : Constant} {id : GlobalId}
    (h : m.addGlobal name initial = .ok (id, m')) : m'.functions = m.functions := by
  unfold Module.addGlobal at h
  split at h
  · cases h
  · cases h
    rfl

theorem functions_addString (m : Module) (value : String) :
    (m.addString value).2.functions = m.functions := by
  unfold Module.addString
  split <;> rfl

/-- A declaration has no blocks. -/
theorem Orderly.declare (h : m.Orderly) {signature : Signature}
    (hdeclare : m.declare signature = .ok m') : m'.Orderly := by
  unfold Module.declare at hdeclare
  split at hdeclare
  · split at hdeclare
    · cases hdeclare
      exact h
    · cases hdeclare
  · cases hdeclare
    refine h.insert fun body hbody => ?_
    cases hbody

theorem Orderly.define (h : m.Orderly) {f : Func}
    (hf : ∀ body, f.body = some body → body.Orderly) (hdefine : m.define f = .ok m') :
    m'.Orderly := by
  unfold Module.define at hdefine
  split at hdefine
  · split at hdefine
    · cases hdefine
      exact h.insert hf
    · cases hdefine
  · cases hdefine
    exact h.insert hf

end

/-- A finished function has the blocks that were built. -/
theorem orderly_finish {signature : Signature} {ops : List Operation} {f : Func}
    (h : ((Builder.start signature).after ops).finish = .ok f) :
    ∀ body, f.body = some body → body.Orderly := by
  intro body hbody
  unfold Builder.finish at h
  split at h
  · cases h
  · cases h
    cases hbody
    exact Body.Orderly.build signature ops

/-- **In every function of a built module the blocks are in order.** -/
theorem Built.orderly {m : Module} (h : m.Built) : m.Orderly := by
  induction h with
  | empty name =>
    intro name f body hf hbody
    cases hf
  | addGlobal _ hadd ih => exact ih.of_functions (functions_addGlobal hadd)
  | addString value _ ih => exact ih.of_functions (functions_addString _ value)
  | declare _ hdeclare ih => exact ih.declare hdeclare
  | define _ hfinish hdefine ih => exact ih.define (orderly_finish hfinish) hdefine

end Module

end SexprSsa
