/-
SexprSsa.Proofs.Unlisted — what a listing does not show.

A listing shows the blocks of a function in the order of the layout. It shows
neither the slots nor the numbers that have been drawn, nor the order in which
the blocks were opened. In a finished function they can be recovered: blocks
are numbered in the order in which they were opened, every slot has its
allocation, and every number of a value that lowering draws belongs to a value
that is computed (`Filled`).

Main statement: `Builder.Finished.body_eq`. Finished functions that lay out the
same blocks are the same.
-/
import SexprSsa.Proofs.ControlShape

namespace SexprSsa

/-! ## The numbers of values -/

/-- Every number of a value that was drawn is that of a value that is computed. -/
def Builder.Filled (b : Builder) : Prop :=
  ∀ k < b.body.nextValue, ∃ q, ⟨k⟩ ∈ results (b.flow.code q)

namespace Builder

variable {pending : List BlockId} {b b' : Builder}

/-- No number is drawn and no instruction is lost. -/
theorem Filled.covers (h : b.Filled) (hb : b.Covers b')
    (hvalues : b'.body.nextValue = b.body.nextValue) : b'.Filled := by
  intro k hk
  obtain ⟨q, hq⟩ := h k (hvalues ▸ hk)
  exact ⟨q, hb.results q _ hq⟩

/-- The number that is drawn is that of the value that is computed. -/
theorem Filled.putValue (h : b.Filled) (hb : b.Open pending) {i : ValueId → Instr}
    (hresult : ∀ r, (i r).result? = some r) : (b.putValue i).Filled := by
  intro k hk
  have hdrawn : k < b.body.nextValue + 1 := hk
  rw [hb.flow_putValue]
  by_cases hold : k < b.body.nextValue
  · obtain ⟨q, hq⟩ := h k hold
    exact ⟨q, results_sublist (b.flow.code_prefix_append _ _ q) hq⟩
  · obtain rfl : k = b.body.nextValue := by omega
    exact ⟨b.cursor.block, by simp [results, hresult]⟩

theorem Filled.put (h : b.Filled) (hb : b.Open pending) (i : Instr) : (b.put i).Filled :=
  h.covers ((hb.grows_put i).covers hb) rfl

theorem Filled.addVariable (h : b.Filled) (hb : b.Open pending) (name : String) (ty : Ty) :
    (b.addVariable name ty).Filled :=
  h.covers ((hb.grows_addVariable name ty).covers hb) rfl

theorem Filled.forked (h : b.Filled) (hb : b.Open pending) (condition : Operand) :
    (b.forked condition).Filled :=
  h.covers ((hb.grows_forked condition).covers hb) rfl

theorem Filled.left (h : b.Filled) (hb : b.Open pending) (join next : BlockId)
    (layout : List BlockId) : (b.left join next layout).Filled :=
  h.covers (hb.covers_left join next layout) rfl

end Builder

mutual

/-- Lowering a form leaves no number without a value. -/
theorem Form.fills {pending : List BlockId} {s s' : LowerState} {v : Operand} :
    (f : Form) → Lowered pending f s v s' → s.Sound pending → s.builder.Filled →
      s'.builder.Filled
  | .number _, h, hs, hb | .truth _, h, hs, hb | .text _, h, hs, hb => by
    cases h
    exact hb
  | .reference _, h, hs, hb => by
    cases h with
    | value _ => exact hb
    | load _ _ => exact hb.putValue hs.opened fun _ => rfl
  | .arith _ left right, h, hs, hb => by
    cases h with
    | arith hleft hright =>
      have hs₁ := (left.reaches hleft hs).1.sound
      have hs₂ := (right.reaches hright hs₁).1.sound
      have hl := left.fills hleft hs hb
      exact (right.fills hright hs₁ hl).putValue hs₂.opened fun _ => rfl
  | .compare _ left right, h, hs, hb => by
    cases h with
    | compare hleft hright =>
      have hs₁ := (left.reaches hleft hs).1.sound
      have hs₂ := (right.reaches hright hs₁).1.sound
      have hl := left.fills hleft hs hb
      exact (right.fills hright hs₁ hl).putValue hs₂.opened fun _ => rfl
  | .declare name ty init, h, hs, hb => by
    cases h with
    | declare hinit =>
      have hs₁ := (init.reaches hinit hs).1.sound
      have hi := (init.fills hinit hs hb).addVariable hs₁.opened name ty
      exact hi.put (hs₁.opened.addVariable name ty) _
  | .assign _ value, h, hs, hb => by
    cases h with
    | assign hvalue _ _ =>
      have hs₁ := (value.reaches hvalue hs).1.sound
      exact (value.fills hvalue hs hb).put hs₁.opened _
  | .block first rest, h, hs, hb => by
    cases h with
    | block hfirst hrest =>
      have hs₁ := (first.reaches hfirst hs.inner.sound).1.sound
      have hf := first.fills hfirst hs.inner.sound hb
      have hr := Form.fillsAll rest hrest hs₁ hf
      exact hr
  | .print template args, h, hs, hb => by
    cases h with
    | print htemplate hargs =>
      have hs₁ := (template.reaches htemplate hs).1.sound
      have hs₂ := (Form.reachesAll args hargs hs₁).1.sound
      have ht := template.fills htemplate hs hb
      exact (Form.fillsAll args hargs hs₁ ht).putValue hs₂.opened fun _ => rfl
  | .choose condition yes no, h, hs, hb => by
    cases h with
    | @choose _ _ s₁ t u _ _ _ c _ _ _ layout' hcondition hyes hmoved hno hmoved' =>
      have hl := relocate_perm hmoved
      have hl' := relocate_perm hmoved'
      obtain ⟨hr₁, hc⟩ := condition.reaches hcondition hs
      have hforked := (hr₁.sound.forked hc).sound
      have ht := (yes.reaches hyes hforked).1
      have hsecond := (hr₁.sound.second hc ht hl).sound
      have hu := (no.reaches hno hsecond).1
      have hcond := (condition.fills hcondition hs hb).forked hr₁.sound.opened c
      have hfirst := yes.fills hyes hforked hcond
      have hboth := no.fills hno hsecond (hfirst.left ht.sound.opened _ _ _)
      have hleft := hboth.left hu.sound.opened (s₁.builder.ahead 2) (s₁.builder.ahead 2) layout'
      exact hleft.putValue (hr₁.sound.joined hc ht hl hu hl').sound.opened fun _ => rfl
  | .malformed _, h, hs, hb => by cases h

theorem Form.fillsAll {pending : List BlockId} {s s' : LowerState} {values : List Operand} :
    (forms : List Form) → LoweredAll pending forms s values s' → s.Sound pending →
      s.builder.Filled → s'.builder.Filled
  | [], h, hs, hb => by
    cases h
    exact hb
  | f :: rest, h, hs, hb => by
    cases h with
    | cons hf hrest =>
      have hs₁ := (f.reaches hf hs).1.sound
      exact Form.fillsAll rest hrest hs₁ (f.fills hf hs hb)

end

/-! ## Blocks, slots and numbers -/

/-- A table is told by its keys in their order and by what it finds. -/
theorem Table.ext_find? {κ α : Type} [DecidableEq κ] {t t' : Table κ α} (hkeys : t.keys = t'.keys)
    (hfind : ∀ k, t.find? k = t'.find? k) : t = t' := by
  have hentries (u : Table κ α) : u.keys.map (fun k => (k, u.find? k)) =
      u.entries.map fun e => (e.1, some e.2) := by
    rw [Table.keys, List.map_map]
    refine List.map_congr_left ?_
    intro e he
    exact congrArg (Prod.mk e.1) ((u.find?_eq_some_iff e.1 e.2).2 he)
  have hinjective : Function.Injective fun e : κ × α => (e.1, some e.2) := by
    rintro ⟨k, a⟩ ⟨k', a'⟩ h
    cases h
    rfl
  apply Table.ext
  apply List.map_injective_iff.2 hinjective
  rw [← hentries, ← hentries, hkeys, funext hfind]

theorem StackSlot.allocation_injective : Function.Injective StackSlot.allocation := by
  rintro ⟨id, name, ty⟩ ⟨id', name', ty'⟩ h
  cases h
  rfl

namespace Builder

variable {m m' : Module} {b b' : Builder}

/-- As many blocks are laid out as were opened. -/
theorem Shaped.length_layout (h : b.Shaped) : b.body.layout.length = b.body.nextBlock := by
  rw [h.layout.length_eq, h.keys]
  simp

/-- The blocks that are laid out are all that there are. -/
theorem Shaped.block?_eq_some_iff (h : b.Shaped) {q : BlockId} {blk : Block} :
    b.body.block? q = some blk ↔ blk ∈ b.body.laidOut ∧ blk.id = q := by
  constructor
  · intro hq
    obtain rfl := h.ids hq
    exact ⟨h.mem_laidOut.2 hq, rfl⟩
  · rintro ⟨hmem, rfl⟩
    exact h.mem_laidOut.1 hmem

/-- The allocations of a finished function are those of its slots. -/
theorem Finished.allocations (h : b.Finished m) :
    (b.body.code b.body.entry).filter Instr.isAlloca = b.body.slots.map StackSlot.allocation := by
  have hslots : (b.body.slots.map StackSlot.allocation).filter Instr.isAlloca =
      b.body.slots.map StackSlot.allocation := by
    rw [List.filter_eq_self]
    intro i hi
    obtain ⟨slot, -, rfl⟩ := List.mem_map.1 hi
    rfl
  have hrest : (b.flow.code b.body.entry).filter Instr.isAlloca = [] := by
    rw [List.filter_eq_nil_iff]
    intro i hi
    simp [h.sound.plain hi]
  rw [h.code_entry, List.filter_append, hslots, hrest, List.append_nil]

/-- The numbers of values that were drawn for one function were drawn for the other. -/
theorem Finished.nextValue_le (h : b.Finished m) (h' : b'.Finished m') (hfilled : b.Filled)
    (hcode : b.body.code = b'.body.code) : b.body.nextValue ≤ b'.body.nextValue := by
  by_contra hlt
  obtain ⟨q, hq⟩ := hfilled b'.body.nextValue (by omega)
  rw [← h.results_code, hcode, h'.results_code] at hq
  exact Nat.lt_irrefl _ (h'.sound.drawn hq)

/-- **What a listing does not show can be told from what it shows.** Finished functions whose values
are all computed are the same if they lay out the same blocks. -/
theorem Finished.body_eq (h : b.Finished m) (h' : b'.Finished m') (hfilled : b.Filled)
    (hfilled' : b'.Filled) (hlaid : b.body.laidOut = b'.body.laidOut) : b.body = b'.body := by
  have hentry : b.body.entry = b'.body.entry := h.entry.trans h'.entry.symm
  have hlayout : b.body.layout = b'.body.layout := by rw [← h.laidOut_ids, hlaid, h'.laidOut_ids]
  have hnext : b.body.nextBlock = b'.body.nextBlock := by
    rw [← h.length_layout, hlayout, h'.length_layout]
  have hblocks : b.body.blocks = b'.body.blocks := by
    apply Table.ext_find?
    · rw [h.keys, h'.keys, hnext]
    · intro q
      apply Option.ext
      intro blk
      change b.body.block? q = some blk ↔ b'.body.block? q = some blk
      rw [h.block?_eq_some_iff, h'.block?_eq_some_iff, hlaid]
  have hcode : b.body.code = b'.body.code := by
    funext q
    rw [Body.code, Body.block?, hblocks]
    rfl
  have hslots : b.body.slots = b'.body.slots := by
    apply List.map_injective_iff.2 StackSlot.allocation_injective
    rw [← h.allocations, ← h'.allocations, hcode, hentry]
  have hvalues : b.body.nextValue = b'.body.nextValue :=
    Nat.le_antisymm (h.nextValue_le h' hfilled hcode) (h'.nextValue_le h hfilled' hcode.symm)
  calc b.body = ⟨b.body.entry, b.body.blocks, b.body.layout, b.body.slots, b.body.nextBlock,
        b.body.nextValue⟩ := rfl
    _ = ⟨b'.body.entry, b'.body.blocks, b'.body.layout, b'.body.slots, b'.body.nextBlock,
        b'.body.nextValue⟩ := by rw [hentry, hblocks, hlayout, hslots, hnext, hvalues]
    _ = b'.body := rfl

end Builder

end SexprSsa
