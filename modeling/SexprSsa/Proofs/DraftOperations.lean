/-
SexprSsa.Proofs.DraftOperations — what the operations of a builder do to a draft.

Each operation is named for the builder it leads to: `put` an instruction,
`draw` a value, `conclude` the block of the cursor, `resume` in another,
`openBlock`, `relay`, `addVariable`. For each there is its effect on the flow
graph and the proof that the builder stays open; the lemmas that end in `_eq`
say that the operation succeeds on an open builder and leads there.
-/
import SexprSsa.Proofs.Draft

namespace SexprSsa

namespace Builder

/-! ## The builders that operations lead to -/

/-- An instruction at the end of the block of the cursor. -/
def put (b : Builder) (i : Instr) : Builder :=
  { b with body := b.body.modifyBlock b.cursor.block fun blk =>
      { blk with instrs := blk.instrs ++ [i] } }

/-- The number of a value is drawn. -/
def draw (b : Builder) : Builder := { b with body := b.body.freshValue.2 }

/-- A value is drawn and computed at the end of the block of the cursor. -/
def putValue (b : Builder) (i : ValueId → Instr) : Builder := b.draw.put (i ⟨b.body.nextValue⟩)

/-- The block of the cursor has its terminator. -/
def conclude (b : Builder) (t : Terminator) : Builder :=
  { b with body := b.body.modifyBlock b.cursor.block fun blk => { blk with terminator := t } }

/-- The cursor is at the end of a block. -/
def resume (b : Builder) (next : BlockId) : Builder := { b with cursor := .blockEnd next }

/-- A block is opened at the end of the layout. -/
def openBlock (b : Builder) (name : String) : Builder :=
  { b with body := (b.body.createBlock name).2 }

/-- The number of the block that is opened next. -/
def nextId (b : Builder) : BlockId := ⟨b.body.nextBlock⟩

/-- The blocks are laid out in another order. -/
def relay (b : Builder) (layout : List BlockId) : Builder :=
  { b with body := { b.body with layout } }

/-- The slot that is added next. -/
def nextSlot (b : Builder) (name : String) (ty : Ty) : StackSlot :=
  ⟨⟨b.body.slots.length⟩, name, ty⟩

/-- A slot is added and its allocation is sunk to the top of the entry block. -/
def addVariable (b : Builder) (name : String) (ty : Ty) : Builder :=
  { b with
    body := (b.body.addSlot name ty).2.modifyBlock b.body.entry fun blk =>
      { blk with instrs := blk.instrs.insertIdx b.sunk (b.nextSlot name ty).allocation }
    sunk := b.sunk + 1 }

/-! ## The shape stays -/

/-- Changing a block keeps the shape if its number and its first instructions stay. -/
theorem Shaped.modifyBlock {b : Builder} (h : b.Shaped) {q : BlockId} {blk : Block}
    (hq : b.body.block? q = some blk) {f : Block → Block} (hid : (f blk).id = blk.id)
    (hinstrs : blk.instrs <+: (f blk).instrs) :
    Shaped { b with body := b.body.modifyBlock q f } where
  entry := h.entry
  keys := (Body.keys_modifyBlock b.body q f).trans h.keys
  inhabited := h.inhabited
  ids {p blk'} hp := by
    rw [Body.block?_modifyBlock] at hp
    by_cases hpq : q = p
    · subst hpq
      rw [if_pos rfl, hq] at hp
      cases hp
      rw [hid]
      exact h.ids hq
    · rw [if_neg hpq] at hp
      exact h.ids hp
  layout := by
    rw [Body.keys_modifyBlock]
    exact h.layout
  sunk := h.sunk
  allocas := by
    refine Eq.trans ?_ h.allocas
    rw [Body.code_modifyBlock hq]
    change List.take b.sunk (if b.body.entry = q then _ else b.body.code b.body.entry) = _
    by_cases he : b.body.entry = q
    · have hle := h.sunk_le
      rw [he, Body.code_of_block hq] at hle
      obtain ⟨rest, hrest⟩ := hinstrs
      rw [if_pos he, he, Body.code_of_block hq, ← hrest, List.take_append_of_le_length hle]
    · rw [if_neg he]

theorem Shaped.put {b : Builder} (h : b.Shaped) {blk : Block}
    (hb : b.body.block? b.cursor.block = some blk) (i : Instr) : (b.put i).Shaped :=
  h.modifyBlock hb rfl (List.prefix_append ..)

theorem Shaped.conclude {b : Builder} (h : b.Shaped) {blk : Block}
    (hb : b.body.block? b.cursor.block = some blk) (t : Terminator) : (b.conclude t).Shaped :=
  h.modifyBlock hb rfl List.prefix_rfl

theorem Shaped.draw {b : Builder} (h : b.Shaped) : b.draw.Shaped := { h with }

theorem Shaped.resume {b : Builder} (h : b.Shaped) (next : BlockId) : (b.resume next).Shaped :=
  { h with }

theorem Shaped.relay {b : Builder} (h : b.Shaped) {layout : List BlockId}
    (hl : layout.Perm b.body.layout) : (b.relay layout).Shaped :=
  { h with layout := hl.trans h.layout }

theorem nextId_not_mem {b : Builder} (h : b.Shaped) : b.nextId ∉ b.body.blocks.keys := by
  rw [h.mem_keys]
  simp [nextId]

theorem Shaped.openBlock {b : Builder} (h : b.Shaped) (name : String) :
    (b.openBlock name).Shaped where
  entry := h.entry
  keys := by
    change (b.body.blocks.insert b.nextId _).keys = _
    rw [Table.keys_insert, if_neg (nextId_not_mem h), h.keys]
    simp [Builder.openBlock, Body.createBlock, nextId, List.range_succ]
  inhabited := Nat.succ_pos _
  ids {q blk} hq := by
    change (b.body.createBlock name).2.block? q = some blk at hq
    rw [Body.block?_createBlock] at hq
    split at hq
    · cases hq
      rfl
    · exact h.ids hq
  layout := by
    change (b.body.layout ++ [b.nextId]).Perm (b.body.blocks.insert b.nextId _).keys
    rw [Table.keys_insert, if_neg (nextId_not_mem h)]
    exact h.layout.append_right _
  sunk := h.sunk
  allocas := by
    refine Eq.trans ?_ h.allocas
    have hne : ¬ (b.body.createBlock name).1 = b.body.entry := by
      rw [h.entry]
      have := h.inhabited
      simp [Body.createBlock]
      omega
    change List.take b.sunk ((b.body.createBlock name).2.code b.body.entry) = _
    unfold Body.code
    rw [Body.block?_createBlock, if_neg hne]

theorem insertIdx_eq_append {α : Type} (a : α) {l : List α} {i : Nat} (h : i ≤ l.length) :
    l.insertIdx i a = l.take i ++ a :: l.drop i := by
  induction i generalizing l with
  | zero => simp
  | succ i ih =>
    cases l with
    | nil => simp at h
    | cons x rest => simp [ih (Nat.le_of_succ_le_succ h)]

theorem Shaped.exists_entry {b : Builder} (h : b.Shaped) :
    ∃ blk, b.body.block? b.body.entry = some blk := by
  refine h.exists_block ?_
  rw [h.entry]
  exact h.inhabited

/-- The instructions of the entry block after a slot was added. -/
theorem code_entry_addVariable {b : Builder} (h : b.Shaped) (name : String) (ty : Ty) :
    (b.addVariable name ty).body.code b.body.entry =
      (b.body.code b.body.entry).take b.sunk ++
        (b.nextSlot name ty).allocation :: b.flow.code b.body.entry := by
  obtain ⟨blk, hblk⟩ := h.exists_entry
  have hslot : (b.body.addSlot name ty).2.block? b.body.entry = some blk := hblk
  have hle := h.sunk_le
  unfold Builder.addVariable
  rw [Body.code_modifyBlock hslot, if_pos rfl]
  rw [Body.code_of_block hblk] at hle ⊢
  change blk.instrs.insertIdx b.sunk _ = _
  rw [insertIdx_eq_append _ hle]
  simp [flow, Body.code_of_block hblk]

theorem code_addVariable_of_ne {b : Builder} (h : b.Shaped) (name : String) (ty : Ty)
    {q : BlockId} (hq : q ≠ b.body.entry) :
    (b.addVariable name ty).body.code q = b.body.code q := by
  obtain ⟨blk, hblk⟩ := h.exists_entry
  have hslot : (b.body.addSlot name ty).2.block? b.body.entry = some blk := hblk
  unfold Builder.addVariable
  rw [Body.code_modifyBlock hslot, if_neg hq]
  rfl

theorem exit_addVariable {b : Builder} (h : b.Shaped) (name : String) (ty : Ty)
    (q : BlockId) : (b.addVariable name ty).body.exit q = b.body.exit q := by
  obtain ⟨blk, hblk⟩ := h.exists_entry
  have hslot : (b.body.addSlot name ty).2.block? b.body.entry = some blk := hblk
  unfold Builder.addVariable
  rw [Body.exit_modifyBlock hslot]
  split
  · next hq =>
    subst hq
    exact (Body.exit_of_block hblk).symm
  · rfl

theorem Shaped.addVariable {b : Builder} (h : b.Shaped) (name : String) (ty : Ty) :
    (b.addVariable name ty).Shaped where
  entry := h.entry
  keys := (Body.keys_modifyBlock ..).trans h.keys
  inhabited := h.inhabited
  ids {q blk} hq := by
    unfold Builder.addVariable at hq
    rw [Body.block?_modifyBlock] at hq
    split at hq
    · obtain ⟨old, hold, rfl⟩ := Option.map_eq_some_iff.1 hq
      have hid : old.id = q := h.ids hold
      exact hid
    · exact h.ids hq
  layout := by
    unfold Builder.addVariable
    rw [Body.keys_modifyBlock]
    exact h.layout
  sunk := by
    simp [Builder.addVariable, Body.modifyBlock, Body.addSlot, h.sunk]
  allocas := by
    change List.take (b.sunk + 1) ((b.addVariable name ty).body.code b.body.entry) =
      List.map StackSlot.allocation (b.body.slots ++ [b.nextSlot name ty])
    rw [code_entry_addVariable h, List.take_append, List.take_take, List.length_take,
      Nat.min_eq_left h.sunk_le, Nat.min_eq_right (Nat.le_succ _), h.allocas]
    simp

/-! ## The graph after each operation -/

@[simp] theorem flow_resume (b : Builder) (next : BlockId) : (b.resume next).flow = b.flow := rfl

theorem flow_put {b : Builder} (h : b.Shaped) {blk : Block}
    (hb : b.body.block? b.cursor.block = some blk) (i : Instr) :
    (b.put i).flow = b.flow.append b.cursor.block i := by
  ext1
  · rfl
  · funext p
    change List.drop _ ((b.put i).body.code p) = _
    unfold put
    rw [Body.code_modifyBlock hb]
    by_cases hp : p = b.cursor.block
    · subst hp
      rw [if_pos rfl, Flow.code_append_self]
      simp only [flow, Body.code_of_block hb]
      refine List.drop_append_of_le_length ?_
      split
      · next he =>
        have hle := h.sunk_le
        rwa [show b.body.entry = b.cursor.block from he.symm, Body.code_of_block hb] at hle
      · exact Nat.zero_le _
    · rw [if_neg hp, Flow.code_append_of_ne _ _ _ hp]
      rfl
  · funext p
    change (b.put i).body.exit p = b.body.exit p
    unfold put
    rw [Body.exit_modifyBlock hb]
    split
    · next hp =>
      subst hp
      exact (Body.exit_of_block hb).symm
    · rfl

theorem flow_conclude {b : Builder} {blk : Block}
    (hb : b.body.block? b.cursor.block = some blk) (t : Terminator) :
    (b.conclude t).flow = b.flow.close b.cursor.block t := by
  ext1
  · rfl
  · funext p
    change List.drop _ ((b.conclude t).body.code p) = List.drop _ (b.body.code p)
    congr 1
    unfold conclude
    rw [Body.code_modifyBlock hb]
    split
    · next hp =>
      subst hp
      exact (Body.code_of_block hb).symm
    · rfl
  · funext p
    change (b.conclude t).body.exit p = _
    unfold conclude
    rw [Body.exit_modifyBlock hb]
    rfl

/-- A block that is opened has no code and no exit, as before. -/
theorem flow_openBlock {b : Builder} (h : b.Shaped) (name : String) :
    (b.openBlock name).flow = b.flow := by
  have hnone := h.block_eq_none (q := b.nextId) (Nat.le_refl _)
  have hblock (q : BlockId) : (b.openBlock name).body.block? q =
      if b.nextId = q then some (.opened q name) else b.body.block? q :=
    Body.block?_createBlock b.body name q
  have hcode (q : BlockId) : (b.openBlock name).body.code q = b.body.code q := by
    unfold Body.code
    rw [hblock]
    split
    · next hq =>
      subst hq
      simp [hnone, Block.opened]
    · rfl
  have hexit (q : BlockId) : (b.openBlock name).body.exit q = b.body.exit q := by
    unfold Body.exit
    rw [hblock]
    split
    · next hq =>
      subst hq
      simp [hnone, Block.opened]
    · rfl
  ext1
  · rfl
  · funext q
    change List.drop _ ((b.openBlock name).body.code q) = List.drop _ (b.body.code q)
    rw [hcode]
    rfl
  · funext q
    exact hexit q

/-- Adding a slot changes only the allocations, which the graph leaves out. -/
theorem flow_addVariable {b : Builder} (h : b.Shaped) (name : String) (ty : Ty) :
    (b.addVariable name ty).flow = b.flow := by
  ext1
  · rfl
  · funext q
    by_cases hq : q = b.body.entry
    · subst hq
      change List.drop (if b.body.entry = b.body.entry then b.sunk + 1 else 0)
        ((b.addVariable name ty).body.code b.body.entry) = _
      rw [code_entry_addVariable h, if_pos rfl, List.drop_append, List.length_take,
        Nat.min_eq_left h.sunk_le, Nat.add_sub_cancel_left, List.drop_eq_nil_of_le]
      · rfl
      · rw [List.length_take]
        omega
    · change List.drop (if q = b.body.entry then _ else 0) ((b.addVariable name ty).body.code q) = _
      rw [code_addVariable_of_ne h name ty hq]
      simp [flow, hq]
  · funext q
    exact exit_addVariable h name ty q

/-! ## The builder stays open -/

namespace Open

variable {pending : List BlockId} {b : Builder}

theorem exists_current (h : b.Open pending) :
    ∃ blk, b.body.block? b.cursor.block = some blk :=
  h.exists_block h.current_lt

theorem flow_put (h : b.Open pending) (i : Instr) :
    (b.put i).flow = b.flow.append b.cursor.block i := by
  obtain ⟨blk, hblk⟩ := h.exists_current
  exact Builder.flow_put h.toShaped hblk i

theorem flow_conclude (h : b.Open pending) (t : Terminator) :
    (b.conclude t).flow = b.flow.close b.cursor.block t := by
  obtain ⟨blk, hblk⟩ := h.exists_current
  exact Builder.flow_conclude hblk t

theorem put (h : b.Open pending) (i : Instr) : (b.put i).Open pending where
  toShaped := by
    obtain ⟨blk, hblk⟩ := h.exists_current
    exact h.toShaped.put hblk i
  cursor := h.cursor
  opened q := by
    rw [h.flow_put]
    exact h.opened q
  empty q hq := by
    rw [h.flow_put, Flow.code_append_of_ne _ _ _ (h.pending_ne hq)]
    exact h.empty q hq
  nodup := h.nodup

theorem draw (h : b.Open pending) : b.draw.Open pending :=
  { h with toShaped := h.toShaped.draw }

theorem flow_putValue (h : b.Open pending) (i : ValueId → Instr) :
    (b.putValue i).flow = b.flow.append b.cursor.block (i ⟨b.body.nextValue⟩) :=
  h.draw.flow_put _

theorem relay (h : b.Open pending) {layout : List BlockId} (hl : layout.Perm b.body.layout) :
    (b.relay layout).Open pending :=
  { h with toShaped := h.toShaped.relay hl }

theorem addVariable (h : b.Open pending) (name : String) (ty : Ty) :
    (b.addVariable name ty).Open pending where
  toShaped := h.toShaped.addVariable name ty
  cursor := h.cursor
  opened q := by
    rw [flow_addVariable h.toShaped]
    exact h.opened q
  empty q hq := by
    rw [flow_addVariable h.toShaped]
    exact h.empty q hq
  nodup := h.nodup

/-- A block that is opened waits for its use. -/
theorem openBlock (h : b.Open pending) (name : String) :
    (b.openBlock name).Open (b.nextId :: pending) where
  toShaped := h.toShaped.openBlock name
  cursor := h.cursor
  opened q := by
    have hold := h.opened q
    have hcount : (b.openBlock name).body.nextBlock = b.body.nextBlock + 1 := rfl
    rw [flow_openBlock h.toShaped, hcount]
    by_cases hq : q = b.nextId
    · subst hq
      have hexit := h.exit_fresh (q := b.nextId) (Nat.le_refl _)
      exact ⟨fun _ => ⟨Nat.lt_succ_self _, hexit⟩, fun _ => by simp⟩
    · have hindex : q.index ≠ b.body.nextBlock := fun e => hq (by cases q; cases e; rfl)
      have hcursor : (b.openBlock name).cursor = b.cursor := rfl
      rw [hcursor]
      simp only [List.mem_cons, hq, false_or] at hold ⊢
      rw [hold]
      constructor
      · exact fun ⟨hlt, he⟩ => ⟨by omega, he⟩
      · exact fun ⟨hlt, he⟩ => ⟨by omega, he⟩
  empty q hq := by
    rw [flow_openBlock h.toShaped]
    rcases List.mem_cons.1 hq with rfl | hq
    · exact h.code_fresh (Nat.le_refl _)
    · exact h.empty q hq
  nodup := by
    have hfresh : b.nextId ∉ b.cursor.block :: pending := by
      rw [h.opened]
      simp [nextId]
    have hnodup := List.nodup_cons.2 ⟨hfresh, h.nodup⟩
    exact (List.Perm.swap ..).nodup_iff.1 hnodup

/-- The block of the cursor gets its terminator and one that waits comes next. -/
theorem leave {next : BlockId} (h : b.Open (next :: pending)) {t : Terminator}
    (ht : t ≠ .missing) : ((b.conclude t).resume next).Open pending where
  toShaped := by
    obtain ⟨blk, hblk⟩ := h.exists_current
    exact (h.toShaped.conclude hblk t).resume next
  cursor := rfl
  opened q := by
    have hold := h.opened q
    have hcount : ((b.conclude t).resume next).body.nextBlock = b.body.nextBlock := rfl
    have hcursor : ((b.conclude t).resume next).cursor.block = next := rfl
    have hnodup := h.nodup
    rw [flow_resume, h.flow_conclude, hcount, hcursor]
    by_cases hq : q = b.cursor.block
    · subst hq
      simp only [List.nodup_cons] at hnodup
      simp [hnodup.1, ht]
    · rw [Flow.exit_close_of_ne _ _ _ hq, ← hold]
      simp [hq]
  empty q hq := by
    rw [flow_resume, h.flow_conclude]
    exact h.empty q (List.mem_cons_of_mem _ hq)
  nodup := (List.nodup_cons.1 h.nodup).2

/-- Once the last open block has its terminator, every block has. -/
theorem closed (h : b.Open []) {t : Terminator} (ht : t ≠ .missing) (q : BlockId)
    (hq : q.index < b.body.nextBlock) : (b.conclude t).flow.exit q ≠ .missing := by
  rw [h.flow_conclude]
  by_cases hcur : q = b.cursor.block
  · subst hcur
    simpa using ht
  · rw [Flow.exit_close_of_ne _ _ _ hcur]
    intro hopen
    have hmem := (h.opened q).2 ⟨hq, hopen⟩
    exact hcur (by simpa using hmem)

end Open

end Builder

/-! ## The operations succeed -/

/-- A modification depends only on what the function does to the stored value. -/
theorem Table.modify_congr {κ α : Type} [DecidableEq κ] {t : Table κ α} {k : κ} {a : α}
    (h : t.find? k = some a) {f g : α → α} (hfg : f a = g a) : t.modify k f = t.modify k g := by
  apply Table.ext
  apply List.map_congr_left
  intro e he
  by_cases hk : e.1 = k
  · have hmem : t.find? e.1 = some e.2 := (t.find?_eq_some_iff e.1 e.2).2 he
    rw [hk, h] at hmem
    cases hmem
    simp [hk, hfg]
  · simp [hk]

theorem Body.modifyBlock_congr {body : Body} {q : BlockId} {blk : Block}
    (h : body.block? q = some blk) {f g : Block → Block} (hfg : f blk = g blk) :
    body.modifyBlock q f = body.modifyBlock q g := by
  unfold modifyBlock
  rw [Table.modify_congr h hfg]

namespace Build

open Builder

variable {pending : List BlockId} {b : Builder}

theorem insert_eq (h : b.Open pending) (i : Instr) : Build.insert i b = (.ok (), b.put i) := by
  obtain ⟨blk, hblk⟩ := h.exists_current
  have hopen : blk.isTerminated = false := by
    have hexit := h.current_open
    rw [show b.flow.exit b.cursor.block = blk.terminator from Body.exit_of_block hblk] at hexit
    simp [Block.isTerminated, hexit]
  refine update_of_ok ?_
  have hplace : b.cursor.place i blk.instrs = (blk.instrs ++ [i], b.cursor) := by
    rw [h.cursor]
    rfl
  simp only [inserted, hblk, hopen, hplace, Builder.put, Bool.false_eq_true, false_and, if_false]
  rw [Body.modifyBlock_congr hblk (f := fun block => { block with instrs := blk.instrs ++ [i] })
    (g := fun block => { block with instrs := block.instrs ++ [i] }) rfl]

theorem compute_eq (h : b.Open pending) (i : ValueId → Instr) :
    Build.compute i b = (.ok (.temp ⟨b.body.nextValue⟩), b.putValue i) := by
  unfold Build.compute
  rw [bind_of_ok (show freshValue b = (.ok ⟨b.body.nextValue⟩, b.draw) from rfl),
    bind_of_ok (insert_eq h.draw _)]
  rfl

theorem createBlock_eq (name : String) :
    Build.createBlock name b = (.ok b.nextId, b.openBlock name) := rfl

theorem switchTo_eq (h : b.Shaped) {q : BlockId} (hq : q.index < b.body.nextBlock) :
    Build.switchTo q b = (.ok (), b.resume q) := by
  obtain ⟨blk, hblk⟩ := h.exists_block hq
  refine update_of_ok ?_
  simp only [hblk]
  rfl

theorem conclude_eq (h : b.Open pending) (t : Terminator) :
    Build.update (fun b => b.sealed t) b = (.ok (), b.conclude t) := by
  obtain ⟨blk, hblk⟩ := h.exists_current
  have hopen : blk.isTerminated = false := by
    have hexit := h.current_open
    rw [show b.flow.exit b.cursor.block = blk.terminator from Body.exit_of_block hblk] at hexit
    simp [Block.isTerminated, hexit]
  refine update_of_ok ?_
  simp only [sealed, hblk, hopen, conclude]
  rfl

/-- Blocks that exist can be laid out one after the other. -/
theorem moveAfter_eq (h : b.Shaped) {q anchor : BlockId} (hq : q.index < b.body.nextBlock)
    (ha : anchor.index < b.body.nextBlock) :
    ∃ layout, relocate b.body.layout q anchor = .ok layout ∧
      Build.moveAfter q anchor b = (.ok (), b.relay layout) := by
  have hq' : q ∈ b.body.layout := h.layout.mem_iff.2 (h.mem_keys.2 hq)
  have ha' : anchor ∈ b.body.layout := h.layout.mem_iff.2 (h.mem_keys.2 ha)
  obtain ⟨layout, hmoved⟩ : ∃ layout, relocate b.body.layout q anchor = .ok layout := by
    unfold relocate
    by_cases hqa : q = anchor
    · exact ⟨_, if_pos hqa⟩
    · simp [hqa, hq', ha']
  refine ⟨layout, hmoved, update_of_ok ?_⟩
  simp only [Body.moveAfter, hmoved]
  rfl

theorem alloca_eq (h : b.Shaped) (name : String) (ty : Ty) :
    Build.alloca name ty b = (.ok ⟨b.body.slots.length⟩, b.addVariable name ty) := by
  obtain ⟨blk, hblk⟩ := h.exists_entry
  have hle := h.sunk_le
  rw [Body.code_of_block hblk] at hle
  have hslot : (b.body.addSlot name ty).2.block? b.body.entry = some blk := hblk
  have hsink : sinkAlloca { b with body := (b.body.addSlot name ty).2 }
      (b.nextSlot name ty).allocation = .ok (b.addVariable name ty) := by
    have hentry : (b.body.addSlot name ty).2.entry = b.body.entry := rfl
    simp only [sinkAlloca, hentry, hslot, Nat.min_eq_left hle, addVariable]
    rw [Body.modifyBlock_congr hslot
      (f := fun block => { block with
        instrs := blk.instrs.insertIdx b.sunk (b.nextSlot name ty).allocation })
      (g := fun block => { block with
        instrs := block.instrs.insertIdx b.sunk (b.nextSlot name ty).allocation }) rfl]
  unfold Build.alloca
  refine (bind_of_ok (show _ = (Except.ok (⟨b.body.slots.length⟩ : SlotId),
    { b with body := (b.body.addSlot name ty).2 }) from rfl)).trans ?_
  rw [bind_of_ok (update_of_ok hsink)]
  rfl

end Build

end SexprSsa
