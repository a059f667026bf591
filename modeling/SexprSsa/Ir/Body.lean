/-
SexprSsa.Ir.Body — the body of a function.

A body keeps its blocks by number, the order in which they are laid out, its
stack slots, and the next free numbers of blocks and values. The layout is
an order for listings and checks; control follows the terminators.

Main statements: `relocate_perm`, a move neither adds nor drops a block;
`block?_createBlock`, `block?_modifyBlock` and `slot?_addSlot` say what each
operation does to the blocks and slots that are found.
-/
import SexprSsa.Ir.Error
import SexprSsa.Data.Table

namespace SexprSsa

/-- A stack slot of a function. -/
structure StackSlot where
  id : SlotId
  name : String
  ty : Ty
  deriving DecidableEq, Repr

/-- The body of a function. -/
structure Body where
  entry : BlockId
  blocks : Table BlockId Block
  layout : List BlockId
  slots : List StackSlot
  nextBlock : Nat
  nextValue : Nat
  deriving DecidableEq

/-! ## Moving a block within a layout -/

/-- Puts a block right after the first occurrence of another. -/
def insertAfter (anchor block : BlockId) : List BlockId → List BlockId
  | [] => []
  | b :: rest => if b = anchor then b :: block :: rest else b :: insertAfter anchor block rest

/-- Takes a block out of a layout and puts it back right after another. A block that is to
follow itself stays where it is. -/
def relocate (layout : List BlockId) (block anchor : BlockId) :
    Except BuildError (List BlockId) :=
  if block = anchor then .ok layout
  else if block ∉ layout then .error (.notLaidOut block)
  else if anchor ∉ layout then .error (.notLaidOut anchor)
  else .ok (insertAfter anchor block (layout.erase block))

/-- Putting a block after another adds it to the layout and nothing else. -/
theorem insertAfter_perm {anchor : BlockId} (block : BlockId) {layout : List BlockId}
    (h : anchor ∈ layout) : (insertAfter anchor block layout).Perm (block :: layout) := by
  induction layout with
  | nil => simp at h
  | cons b rest ih =>
    by_cases hb : b = anchor
    · simp only [insertAfter, if_pos hb]
      exact List.Perm.swap ..
    · have h' : anchor ∈ rest := by
        rcases List.mem_cons.1 h with h | h
        · exact absurd h.symm hb
        · exact h
      simp only [insertAfter, if_neg hb]
      exact ((ih h').cons b).trans (List.Perm.swap ..)

/-- A layout after a move lists the same blocks. -/
theorem relocate_perm {layout moved : List BlockId} {block anchor : BlockId}
    (h : relocate layout block anchor = .ok moved) : moved.Perm layout := by
  unfold relocate at h
  split at h
  · cases h; exact .refl _
  · next hne =>
    split at h
    · cases h
    · next hb =>
      split at h
      · cases h
      · next ha =>
        cases h
        have ha' : anchor ∈ layout.erase block := by
          rw [List.mem_erase_of_ne (fun e => hne e.symm)]
          exact Decidable.not_not.1 ha
        exact (insertAfter_perm block ha').trans
          (List.perm_cons_erase (Decidable.not_not.1 hb)).symm

namespace Body

/-- A body with an entry block and nothing else. -/
def initial : Body where
  entry := ⟨0⟩
  blocks := Table.empty.insert ⟨0⟩ (.opened ⟨0⟩ "entry")
  layout := [⟨0⟩]
  slots := []
  nextBlock := 1
  nextValue := 0

instance : Inhabited Body := ⟨initial⟩

/-- The block with a number. -/
def block? (body : Body) (id : BlockId) : Option Block := body.blocks.find? id

/-- The slot with a number, which is its position. -/
def slot? (body : Body) (id : SlotId) : Option StackSlot := body.slots[id.index]?

/-- Changes a block. -/
def modifyBlock (body : Body) (id : BlockId) (f : Block → Block) : Body :=
  { body with blocks := body.blocks.modify id f }

/-- Opens a new block at the end of the layout. -/
def createBlock (body : Body) (name : String) : BlockId × Body :=
  let id : BlockId := ⟨body.nextBlock⟩
  (id, { body with
    blocks := body.blocks.insert id (.opened id name)
    layout := body.layout ++ [id]
    nextBlock := body.nextBlock + 1 })

/-- Draws the number of a new value. -/
def freshValue (body : Body) : ValueId × Body :=
  (⟨body.nextValue⟩, { body with nextValue := body.nextValue + 1 })

/-- Adds a slot. -/
def addSlot (body : Body) (name : String) (ty : Ty) : SlotId × Body :=
  let id : SlotId := ⟨body.slots.length⟩
  (id, { body with slots := body.slots ++ [⟨id, name, ty⟩] })

/-- Lays a block out right after another. -/
def moveAfter (body : Body) (block anchor : BlockId) : Except BuildError Body := do
  let layout ← relocate body.layout block anchor
  return { body with layout }

/-- The blocks that the layout lists, in its order; numbers without a block are passed over. -/
def laidOut (body : Body) : List Block := body.layout.filterMap body.block?

/-- The blocks from which control may go to a block, in layout order. -/
def predecessors (body : Body) (target : BlockId) : List BlockId :=
  (body.laidOut.filter fun b => target ∈ b.successors).map Block.id

/-- The first block, in order of creation, that has no terminator. -/
def openBlock? (body : Body) : Option Block :=
  body.blocks.values.find? fun b => !b.isTerminated

/-! ## Blocks and slots after each operation -/

theorem block?_modifyBlock (body : Body) (id other : BlockId) (f : Block → Block) :
    (body.modifyBlock id f).block? other =
      if id = other then (body.block? other).map f else body.block? other :=
  body.blocks.find?_modify id other f

@[simp] theorem keys_modifyBlock (body : Body) (id : BlockId) (f : Block → Block) :
    (body.modifyBlock id f).blocks.keys = body.blocks.keys :=
  body.blocks.keys_modify id f

theorem block?_createBlock (body : Body) (name : String) (id : BlockId) :
    (body.createBlock name).2.block? id =
      if (body.createBlock name).1 = id then some (.opened id name) else body.block? id := by
  by_cases h : (body.createBlock name).1 = id
  · subst h
    simp [createBlock, block?]
  · rw [if_neg h]
    exact body.blocks.find?_insert_of_ne _ h

theorem slot?_addSlot (body : Body) (name : String) (ty : Ty) (id : SlotId) :
    (body.addSlot name ty).2.slot? id =
      if (body.addSlot name ty).1 = id then some ⟨id, name, ty⟩ else body.slot? id := by
  obtain ⟨i⟩ := id
  simp only [addSlot, slot?, SlotId.mk.injEq]
  by_cases h : body.slots.length = i
  · subst h; simp
  · rw [if_neg h, List.getElem?_append]
    split
    · rfl
    · next hi =>
      rw [List.getElem?_eq_none (by omega : body.slots.length ≤ i), List.getElem?_eq_none]
      simp; omega

end Body

end SexprSsa
