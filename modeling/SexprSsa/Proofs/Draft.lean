/-
SexprSsa.Proofs.Draft — a function under construction.

A builder that lowering works with always stands at the end of an open block.
Besides that one, the blocks that are open are empty: they were opened ahead
of their use and wait for control to come to them. `Open` says so, together
with what holds of blocks, layout and slots at all times (`Shaped`).

The flow graph of a builder leaves out the allocations at the top of the
entry block. So the graph does not change when a slot is added, nor when a
block is opened or moved; of the builder's operations only two change it, by
`Flow.append` and `Flow.close`.

Each operation is given by the builder it leads to, and for each there are
three facts: that it succeeds, what it does to the graph, and that the builder
stays open.
-/
import SexprSsa.Proofs.Effects
import SexprSsa.Proofs.Flow
import Mathlib.Data.List.InsertIdx

namespace SexprSsa

/-! ## The graph of a body and of a builder -/

/-- The instruction that allocates a slot. -/
def StackSlot.allocation (s : StackSlot) : Instr := .alloca s.id s.ty s.name

namespace Body

/-- The instructions of a block; a number without a block has none. -/
def code (body : Body) (q : BlockId) : List Instr := ((body.block? q).map Block.instrs).getD []

/-- The terminator of a block; a number without a block has none. -/
def exit (body : Body) (q : BlockId) : Terminator :=
  ((body.block? q).map Block.terminator).getD .missing

/-- The flow graph of a body. -/
def flow (body : Body) : Flow := ⟨body.entry, body.code, body.exit⟩

theorem code_of_block {body : Body} {q : BlockId} {b : Block} (h : body.block? q = some b) :
    body.code q = b.instrs := by
  simp [code, h]

theorem exit_of_block {body : Body} {q : BlockId} {b : Block} (h : body.block? q = some b) :
    body.exit q = b.terminator := by
  simp [exit, h]

theorem code_of_none {body : Body} {q : BlockId} (h : body.block? q = none) :
    body.code q = [] := by
  simp [code, h]

theorem exit_of_none {body : Body} {q : BlockId} (h : body.block? q = none) :
    body.exit q = .missing := by
  simp [exit, h]

/-- Changing the instructions of a block changes no other block and no terminator. -/
theorem code_modifyBlock {body : Body} {q : BlockId} {b : Block} (h : body.block? q = some b)
    (f : Block → Block) (p : BlockId) :
    (body.modifyBlock q f).code p = if p = q then (f b).instrs else body.code p := by
  unfold code
  rw [block?_modifyBlock]
  by_cases hp : p = q
  · subst hp
    simp [h]
  · have hp' : ¬ q = p := fun e => hp e.symm
    simp [hp, hp']

theorem exit_modifyBlock {body : Body} {q : BlockId} {b : Block} (h : body.block? q = some b)
    (f : Block → Block) (p : BlockId) :
    (body.modifyBlock q f).exit p = if p = q then (f b).terminator else body.exit p := by
  unfold exit
  rw [block?_modifyBlock]
  by_cases hp : p = q
  · subst hp
    simp [h]
  · have hp' : ¬ q = p := fun e => hp e.symm
    simp [hp, hp']

end Body

namespace Builder

/-- The flow graph of a builder, without the allocations that were sunk to the entry block. -/
def flow (b : Builder) : Flow where
  entry := b.body.entry
  code q := (b.body.code q).drop (if q = b.body.entry then b.sunk else 0)
  exit := b.body.exit

/-- What holds of the blocks, the layout and the slots of a builder at all times. -/
structure Shaped (b : Builder) : Prop where
  entry : b.body.entry = ⟨0⟩
  keys : b.body.blocks.keys = (List.range b.body.nextBlock).map BlockId.mk
  inhabited : 0 < b.body.nextBlock
  ids : ∀ {q blk}, b.body.block? q = some blk → blk.id = q
  layout : b.body.layout.Perm b.body.blocks.keys
  sunk : b.sunk = b.body.slots.length
  allocas : (b.body.code b.body.entry).take b.sunk = b.body.slots.map StackSlot.allocation

/-- A builder at the end of an open block, with further open blocks that are still empty. -/
structure Open (pending : List BlockId) (b : Builder) : Prop extends b.Shaped where
  cursor : b.cursor = .blockEnd b.cursor.block
  opened : ∀ q, q ∈ b.cursor.block :: pending ↔
    q.index < b.body.nextBlock ∧ b.flow.exit q = .missing
  empty : ∀ q ∈ pending, b.flow.code q = []
  nodup : (b.cursor.block :: pending).Nodup

namespace Shaped

variable {b : Builder}

theorem mem_keys (h : b.Shaped) {q : BlockId} :
    q ∈ b.body.blocks.keys ↔ q.index < b.body.nextBlock := by
  obtain ⟨n⟩ := q
  rw [h.keys]
  simp

/-- The numbers of the blocks are those that have been drawn. -/
theorem exists_block (h : b.Shaped) {q : BlockId} (hq : q.index < b.body.nextBlock) :
    ∃ blk, b.body.block? q = some blk :=
  (b.body.blocks.mem_keys_iff q).1 (h.mem_keys.2 hq)

theorem lt_of_block (h : b.Shaped) {q : BlockId} {blk : Block}
    (hq : b.body.block? q = some blk) : q.index < b.body.nextBlock :=
  h.mem_keys.1 ((b.body.blocks.mem_keys_iff q).2 ⟨blk, hq⟩)

theorem block_eq_none (h : b.Shaped) {q : BlockId} (hq : b.body.nextBlock ≤ q.index) :
    b.body.block? q = none := by
  refine (b.body.blocks.find?_eq_none_iff q).2 fun hmem => ?_
  have := h.mem_keys.1 hmem
  omega

/-- A number that has not been drawn has no code. -/
theorem code_fresh (h : b.Shaped) {q : BlockId} (hq : b.body.nextBlock ≤ q.index) :
    b.flow.code q = [] := by
  simp [flow, Body.code_of_none (h.block_eq_none hq)]

/-- A number that has not been drawn has no exit. -/
theorem exit_fresh (h : b.Shaped) {q : BlockId} (hq : b.body.nextBlock ≤ q.index) :
    b.flow.exit q = .missing :=
  Body.exit_of_none (h.block_eq_none hq)

theorem sunk_le (h : b.Shaped) : b.sunk ≤ (b.body.code b.body.entry).length := by
  have := congrArg List.length h.allocas
  rw [List.length_take, List.length_map, ← h.sunk] at this
  omega

/-- The entry block starts with the allocations of the slots. -/
theorem code_entry (h : b.Shaped) : b.body.code b.body.entry =
    b.body.slots.map StackSlot.allocation ++ b.flow.code b.body.entry := by
  rw [← h.allocas]
  simp [flow]

/-- In the other blocks the graph has all instructions. -/
theorem code_of_ne_entry {q : BlockId} (hq : q ≠ b.body.entry) :
    b.flow.code q = b.body.code q := by
  simp [flow, hq]

end Shaped

theorem Open.current_lt {pending : List BlockId} {b : Builder} (h : b.Open pending) :
    b.cursor.block.index < b.body.nextBlock :=
  ((h.opened _).1 (by simp)).1

theorem Open.current_open {pending : List BlockId} {b : Builder} (h : b.Open pending) :
    b.flow.exit b.cursor.block = .missing :=
  ((h.opened _).1 (by simp)).2

theorem Open.pending_lt {pending : List BlockId} {b : Builder} (h : b.Open pending)
    {q : BlockId} (hq : q ∈ pending) : q.index < b.body.nextBlock :=
  ((h.opened q).1 (by simp [hq])).1

theorem Open.pending_open {pending : List BlockId} {b : Builder} (h : b.Open pending)
    {q : BlockId} (hq : q ∈ pending) : b.flow.exit q = .missing :=
  ((h.opened q).1 (by simp [hq])).2

theorem Open.pending_ne {pending : List BlockId} {b : Builder} (h : b.Open pending)
    {q : BlockId} (hq : q ∈ pending) : q ≠ b.cursor.block := by
  rintro rfl
  exact (List.nodup_cons.1 h.nodup).1 hq

/-- The order of the blocks that wait does not matter. -/
theorem Open.perm {pending other : List BlockId} {b : Builder} (h : b.Open pending)
    (hp : pending.Perm other) : b.Open other where
  toShaped := h.toShaped
  cursor := h.cursor
  opened q := by
    rw [← h.opened q]
    simp [hp.mem_iff]
  empty q hq := h.empty q (hp.mem_iff.2 hq)
  nodup := (hp.cons _).nodup_iff.1 h.nodup

end Builder

end SexprSsa
