/-
SexprSsa.Proofs.Growth — how a draft grows while a form is lowered.

Between the builder before and the builder after, nothing that was written is
changed. Of the blocks that existed only the one of the cursor goes on, and
every edge that is added leads to a block that was added (`Grows`). This is
what makes the code of a form a region with one way in and one way out: paths
to the blocks that existed are the paths they were (`Grows.keeps`), and the
finished function contains each intermediate graph (`Flow.Within`).

`work` counts what a run of a body can execute at most once.
-/
import SexprSsa.Proofs.DraftOperations
import Mathlib.Algebra.Ring.Nat

namespace SexprSsa

/-! ## One graph within another -/

/-- Every block of `g` starts a block of `g'`, and those that have an exit are the same. -/
def Flow.Within (g g' : Flow) : Prop :=
  ∀ q, g.code q <+: g'.code q ∧
    (g.exit q ≠ .missing → g'.code q = g.code q ∧ g'.exit q = g.exit q)

namespace Flow.Within

variable {g g' g'' : Flow}

theorem trans (h : g.Within g') (h' : g'.Within g'') : g.Within g'' := by
  intro q
  refine ⟨(h q).1.trans (h' q).1, fun hq => ?_⟩
  obtain ⟨hcode, hexit⟩ := (h q).2 hq
  obtain ⟨hcode', hexit'⟩ := (h' q).2 (hexit ▸ hq)
  exact ⟨hcode'.trans hcode, hexit'.trans hexit⟩

/-- A block that is open can be appended to. -/
theorem append {q : BlockId} (hq : g.exit q = .missing) (i : Instr) :
    g.Within (g.append q i) := by
  intro p
  refine ⟨g.code_prefix_append q i p, fun hp => ?_⟩
  have hpq : p ≠ q := fun e => hp (e ▸ hq)
  exact ⟨g.code_append_of_ne q i hpq, rfl⟩

/-- A block that is open can be closed. -/
theorem close {q : BlockId} (hq : g.exit q = .missing) (t : Terminator) :
    g.Within (g.close q t) := by
  intro p
  refine ⟨List.prefix_rfl, fun hp => ⟨rfl, ?_⟩⟩
  exact g.exit_close_of_ne q t fun e => hp (e ▸ hq)

end Flow.Within

/-! ## What a body has to run -/

/-- One for a terminator. -/
def Terminator.work : Terminator → Nat
  | .missing => 0
  | _ => 1

theorem Terminator.work_eq_one {t : Terminator} (h : t ≠ .missing) : t.work = 1 := by
  cases t with
  | missing => exact absurd rfl h
  | _ => rfl

/-- The number of instructions of a block, and one for its terminator. -/
def Block.work (blk : Block) : Nat := blk.instrs.length + blk.terminator.work

/-- The number of instructions and terminators of a body. -/
def Body.work (body : Body) : Nat := (body.blocks.values.map Block.work).sum

/-- A sum over the values of a table after one of them was modified. -/
theorem Table.sum_modify {κ α : Type} [DecidableEq κ] {t : Table κ α} {k : κ} {a : α}
    (h : t.find? k = some a) (f : α → α) (w : α → Nat) :
    ((t.modify k f).values.map w).sum + w a = (t.values.map w).sum + w (f a) := by
  obtain ⟨entries, hnodup⟩ := t
  simp only [Table.values, Table.modify, Table.find?] at h ⊢
  induction entries with
  | nil => simp [Table.lookupIn] at h
  | cons e rest ih =>
    obtain ⟨k', a'⟩ := e
    simp only [List.map_cons, List.nodup_cons] at hnodup
    by_cases hk : k' = k
    · subst hk
      have ha : a' = a := by simpa [Table.lookupIn] using h
      subst ha
      have hrest : (rest.map fun e => if e.1 = k' then (e.1, f e.2) else e) = rest := by
        refine (List.map_congr_left fun e he => ?_).trans (List.map_id rest)
        have hne : e.1 ≠ k' := by
          rintro rfl
          exact hnodup.1 (List.mem_map.2 ⟨e, he, rfl⟩)
        simp [hne]
      simp only [List.map_cons, if_true, hrest, List.sum_cons]
      omega
    · have := ih hnodup.2 (by simpa [Table.lookupIn, hk] using h)
      simp only [List.map_cons, if_neg hk, List.sum_cons]
      omega

theorem Body.work_modifyBlock {body : Body} {q : BlockId} {blk : Block}
    (h : body.block? q = some blk) (f : Block → Block) :
    (body.modifyBlock q f).work + blk.work = body.work + (f blk).work :=
  Table.sum_modify h f Block.work

namespace Builder

variable {pending : List BlockId} {b : Builder}

theorem Open.terminator_eq (h : b.Open pending) {blk : Block}
    (hb : b.body.block? b.cursor.block = some blk) : blk.terminator = .missing := by
  have hexit := h.current_open
  rwa [show b.flow.exit b.cursor.block = blk.terminator from Body.exit_of_block hb] at hexit

theorem work_put (h : b.Open pending) (i : Instr) : (b.put i).body.work = b.body.work + 1 := by
  obtain ⟨blk, hblk⟩ := h.exists_current
  have := Body.work_modifyBlock hblk fun blk => { blk with instrs := blk.instrs ++ [i] }
  simp only [Block.work, List.length_append, List.length_singleton] at this
  change (b.body.modifyBlock _ _).work = _
  omega

theorem work_conclude (h : b.Open pending) {t : Terminator} (ht : t ≠ .missing) :
    (b.conclude t).body.work = b.body.work + 1 := by
  obtain ⟨blk, hblk⟩ := h.exists_current
  have := Body.work_modifyBlock hblk fun blk => { blk with terminator := t }
  simp only [Block.work, h.terminator_eq hblk, Terminator.work_eq_one ht] at this
  change (b.body.modifyBlock _ _).work = _
  simp only [Terminator.work] at this
  omega

theorem work_openBlock (h : b.Shaped) (name : String) :
    (b.openBlock name).body.work = b.body.work := by
  have hentries := b.body.blocks.entries_insert_of_not_mem (.opened b.nextId name)
    (nextId_not_mem h)
  change (((b.body.blocks.insert b.nextId (.opened b.nextId name)).entries.map Prod.snd).map
    Block.work).sum = _
  rw [hentries]
  simp [Body.work, Table.values, Block.work, Block.opened, Terminator.work]

theorem work_addVariable (h : b.Shaped) (name : String) (ty : Ty) :
    (b.addVariable name ty).body.work = b.body.work + 1 := by
  obtain ⟨blk, hblk⟩ := h.exists_entry
  have hslot : (b.body.addSlot name ty).2.block? b.body.entry = some blk := hblk
  have hle := h.sunk_le
  rw [Body.code_of_block hblk] at hle
  have := Body.work_modifyBlock hslot fun blk =>
    { blk with instrs := blk.instrs.insertIdx b.sunk (b.nextSlot name ty).allocation }
  have hwork : (b.body.addSlot name ty).2.work = b.body.work := rfl
  simp only [Block.work, List.length_insertIdx_of_le_length hle, hwork] at this
  change ((b.body.addSlot name ty).2.modifyBlock _ _).work = _
  omega

/-! ## Growth -/

/-- `b'` comes of `b` by lowering something at the cursor of `b`. -/
structure Grows (b b' : Builder) : Prop where
  signature : b'.signature = b.signature
  entry : b'.body.entry = b.body.entry
  blocks : b.body.nextBlock ≤ b'.body.nextBlock
  values : b.body.nextValue ≤ b'.body.nextValue
  slots : b.body.slots <+: b'.body.slots
  /-- Of the blocks that there were only that of the cursor may change. -/
  kept : ∀ q, q.index < b.body.nextBlock → q ≠ b.cursor.block →
    b'.flow.code q = b.flow.code q ∧ b'.flow.exit q = b.flow.exit q
  current : b.flow.code b.cursor.block <+: b'.flow.code b.cursor.block
  /-- What is added leads only to blocks that are added. -/
  edges : ∀ p q, p = b.cursor.block ∨ b.body.nextBlock ≤ p.index → b'.flow.Edge p q →
    b.body.nextBlock ≤ q.index
  cursor : b'.cursor.block = b.cursor.block ∨ b.body.nextBlock ≤ b'.cursor.block.index
  /-- No instruction is lost, allocations not counted. -/
  work : b.body.work + b'.body.slots.length ≤ b'.body.work + b.body.slots.length

namespace Grows

variable {b' b'' : Builder}

theorem refl (h : b.Open pending) : b.Grows b where
  signature := rfl
  entry := rfl
  blocks := Nat.le_refl _
  values := Nat.le_refl _
  slots := List.prefix_rfl
  kept _ _ _ := ⟨rfl, rfl⟩
  current := List.prefix_rfl
  edges p q hp he := by
    have hexit : b.flow.exit p = .missing := by
      rcases hp with rfl | hp
      · exact h.current_open
      · exact h.exit_fresh hp
    simp [Flow.Edge, hexit, Terminator.successors] at he
  cursor := .inl rfl
  work := Nat.le_refl _

/-- An old block other than that of the cursor is not the cursor of what grows out of it. -/
theorem ne_cursor (h : b.Grows b') {q : BlockId} (hq : q.index < b.body.nextBlock)
    (hne : q ≠ b.cursor.block) : q ≠ b'.cursor.block := by
  rintro rfl
  rcases h.cursor with hc | hc
  · exact hne hc
  · omega

theorem trans (hb : b.Open pending) (h : b.Grows b') (h' : b'.Grows b'') : b.Grows b'' where
  signature := h'.signature.trans h.signature
  entry := h'.entry.trans h.entry
  blocks := Nat.le_trans h.blocks h'.blocks
  values := Nat.le_trans h.values h'.values
  slots := h.slots.trans h'.slots
  kept q hq hne := by
    obtain ⟨hcode, hexit⟩ := h.kept q hq hne
    obtain ⟨hcode', hexit'⟩ := h'.kept q (Nat.lt_of_lt_of_le hq h.blocks) (h.ne_cursor hq hne)
    exact ⟨hcode'.trans hcode, hexit'.trans hexit⟩
  current := by
    by_cases hc : b.cursor.block = b'.cursor.block
    · exact h.current.trans (hc ▸ h'.current)
    · rw [(h'.kept _ (Nat.lt_of_lt_of_le hb.current_lt h.blocks) hc).1]
      exact h.current
  edges p q hp he := by
    by_cases hold : p.index < b'.body.nextBlock ∧ p ≠ b'.cursor.block
    · have hexit := (h'.kept p hold.1 hold.2).2
      exact h.edges p q hp (by rwa [Flow.Edge, hexit] at he)
    · have hnew : p = b'.cursor.block ∨ b'.body.nextBlock ≤ p.index := by
        by_cases hpc : p = b'.cursor.block
        · exact .inl hpc
        · exact .inr (Nat.le_of_not_lt fun hlt => hold ⟨hlt, hpc⟩)
      exact Nat.le_trans h.blocks (h'.edges p q hnew he)
  cursor := by
    rcases h'.cursor with hc' | hc'
    · rw [hc']
      exact h.cursor
    · exact .inr (Nat.le_trans h.blocks hc')
  work := by
    have := h.work
    have := h'.work
    omega

/-- Edges into the blocks that there were, and what they have run, stay. -/
theorem keeps (hb : b.Open pending) (h : b.Grows b') :
    b.flow.Keeps b'.flow fun q => q.index < b.body.nextBlock := by
  have hsource : ∀ {p q}, b.flow.Edge p q → p.index < b.body.nextBlock ∧ p ≠ b.cursor.block := by
    intro p q he
    constructor
    · refine Nat.lt_of_not_le ?_
      intro hp
      simp [Flow.Edge, hb.exit_fresh hp, Terminator.successors] at he
    · rintro rfl
      simp [Flow.Edge, hb.current_open, Terminator.successors] at he
  refine ⟨h.entry, ?_, fun _ he => (hsource he).1, ?_⟩
  · intro p q hq
    constructor
    · intro he
      have hold : p.index < b.body.nextBlock ∧ p ≠ b.cursor.block := by
        by_contra hnew
        have := h.edges p q (by
          by_cases hp : p = b.cursor.block
          · exact .inl hp
          · exact .inr (Nat.le_of_not_lt fun hlt => hnew ⟨hlt, hp⟩)) he
        omega
      rwa [Flow.Edge, (h.kept p hold.1 hold.2).2] at he
    · intro he
      rwa [Flow.Edge, (h.kept p (hsource he).1 (hsource he).2).2]
  · intro p hp
    by_cases hc : p = b.cursor.block
    · subst hc
      exact h.current
    · exact (h.kept p hp hc).1 ▸ List.prefix_rfl

/-- The graph that was there is within the one that has grown out of it. -/
theorem within (hb : b.Open pending) (h : b.Grows b') : b.flow.Within b'.flow := by
  intro q
  by_cases hq : q.index < b.body.nextBlock
  · by_cases hc : q = b.cursor.block
    · subst hc
      exact ⟨h.current, fun hexit => absurd hb.current_open hexit⟩
    · obtain ⟨hcode, hexit⟩ := h.kept q hq hc
      rw [hcode, hexit]
      exact ⟨List.prefix_rfl, fun _ => ⟨rfl, rfl⟩⟩
  · rw [hb.code_fresh (Nat.le_of_not_lt hq), hb.exit_fresh (Nat.le_of_not_lt hq)]
    exact ⟨List.nil_prefix, fun h => absurd rfl h⟩

end Grows

/-! ## The operations grow a draft -/

namespace Open

variable {b' : Builder}

/-- A draft with the same graph and cursor has grown if its counters have. -/
theorem grows_of_flow (h : b.Open pending) (hflow : b'.flow = b.flow)
    (hcursor : b'.cursor = b.cursor) (hsignature : b'.signature = b.signature)
    (hblocks : b.body.nextBlock ≤ b'.body.nextBlock)
    (hvalues : b.body.nextValue ≤ b'.body.nextValue) (hslots : b.body.slots <+: b'.body.slots)
    (hwork : b.body.work + b'.body.slots.length ≤ b'.body.work + b.body.slots.length) :
    b.Grows b' where
  signature := hsignature
  entry := congrArg Flow.entry hflow
  blocks := hblocks
  values := hvalues
  slots := hslots
  kept _ _ _ := by
    rw [hflow]
    exact ⟨rfl, rfl⟩
  current := hflow ▸ List.prefix_rfl
  edges p q hp he := by
    rw [hflow] at he
    exact (Grows.refl h).edges p q hp he
  cursor := .inl (by rw [hcursor])
  work := hwork

theorem grows_draw (h : b.Open pending) : b.Grows b.draw :=
  h.grows_of_flow rfl rfl rfl (Nat.le_refl _) (Nat.le_succ _) List.prefix_rfl (Nat.le_refl _)

theorem grows_relay (h : b.Open pending) (layout : List BlockId) : b.Grows (b.relay layout) :=
  h.grows_of_flow rfl rfl rfl (Nat.le_refl _) (Nat.le_refl _) List.prefix_rfl (Nat.le_refl _)

theorem grows_openBlock (h : b.Open pending) (name : String) : b.Grows (b.openBlock name) :=
  h.grows_of_flow (flow_openBlock h.toShaped name) rfl rfl (Nat.le_succ _) (Nat.le_refl _)
    List.prefix_rfl (Nat.add_le_add_right (Nat.le_of_eq (work_openBlock h.toShaped name).symm) _)

theorem grows_addVariable (h : b.Open pending) (name : String) (ty : Ty) :
    b.Grows (b.addVariable name ty) := by
  refine h.grows_of_flow (flow_addVariable h.toShaped name ty) rfl rfl (Nat.le_refl _)
    (Nat.le_refl _) (List.prefix_append ..) ?_
  have hslots : (b.addVariable name ty).body.slots.length = b.body.slots.length + 1 := by
    change (b.body.slots ++ [b.nextSlot name ty]).length = _
    simp
  rw [work_addVariable h.toShaped, hslots]
  omega

theorem grows_put (h : b.Open pending) (i : Instr) : b.Grows (b.put i) where
  signature := rfl
  entry := rfl
  blocks := Nat.le_refl _
  values := Nat.le_refl _
  slots := List.prefix_rfl
  kept q _ hq := by
    rw [h.flow_put, Flow.code_append_of_ne _ _ _ hq]
    exact ⟨rfl, rfl⟩
  current := by
    rw [h.flow_put]
    exact Flow.code_prefix_append ..
  edges p q hp he := by
    rw [h.flow_put] at he
    exact (Grows.refl h).edges p q hp he
  cursor := .inl rfl
  work := by
    rw [work_put h]
    change _ + b.body.slots.length ≤ _
    omega

end Open

/-- A draft that has grown still has when its block is left for blocks that were added. -/
theorem Grows.leave {b' : Builder} {next : BlockId} (h : b.Grows b')
    {waiting : List BlockId} (hb' : b'.Open waiting) {t : Terminator} (ht : t ≠ .missing)
    (hnext : b.body.nextBlock ≤ next.index)
    (htargets : ∀ q ∈ t.successors, b.body.nextBlock ≤ q.index) :
    b.Grows ((b'.conclude t).resume next) where
  signature := h.signature
  entry := h.entry
  blocks := h.blocks
  values := h.values
  slots := h.slots
  kept q hq hne := by
    rw [flow_resume, hb'.flow_conclude, Flow.exit_close_of_ne _ _ _ (h.ne_cursor hq hne)]
    exact h.kept q hq hne
  current := by
    rw [flow_resume, hb'.flow_conclude]
    exact h.current
  edges p q hp he := by
    rw [flow_resume, hb'.flow_conclude, Flow.edge_close] at he
    rcases he with ⟨-, hq⟩ | ⟨-, he⟩
    · exact htargets q hq
    · exact h.edges p q hp he
  cursor := .inr hnext
  work := by
    have := h.work
    change b.body.work + b'.body.slots.length ≤ (b'.conclude t).body.work + b.body.slots.length
    rw [work_conclude hb' ht]
    omega

end Builder

end SexprSsa
