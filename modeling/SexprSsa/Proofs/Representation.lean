/-
SexprSsa.Proofs.Representation — what every body under construction has.

A body that is built grows and nothing else: operations put instructions into
blocks, at any place, and end blocks that have no terminator. `Body.Adds` says
so of two bodies and the instructions that one has more than the other; it
composes, so the proof looks at each operation once, in the body that it finds
(`Operation.writes`), and sequences follow (`Builder.adds_after`).

Main statement: `after_regular`. Whatever is done, the blocks, the slots and the
values are numbered as they were drawn, each slot has its allocation in the
entry block, and a block has exactly the instructions that were put into it,
each as often as it was put in; going on building changes no terminator and no
order of instructions.
-/
import SexprSsa.Proofs.Construction
import SexprSsa.Proofs.Draft
import SexprSsa.Ir.Verify
import Mathlib.Data.List.Nodup
import Mathlib.Data.List.Pairwise

namespace SexprSsa

/-! ## Regular bodies -/

/-- The numbers of blocks, slots and values are those that were drawn, each given once, and the
allocations of the entry block are those of the slots. -/
structure Body.Regular (body : Body) : Prop extends body.Orderly where
  once : body.layout.Nodup
  slots : ∀ {id s}, body.slot? id = some s → s.id = id
  distinct : body.definedValues.Nodup
  drawn : ∀ v ∈ body.definedValues, v.index < body.nextValue
  allocations : ((body.code body.entry).filter Instr.isAlloca).Perm
    (body.slots.map StackSlot.allocation)
  sunk : ∀ {q i}, i ∈ body.code q → i.isAlloca = true → q = body.entry

/-! ## What is put in -/

/-- The instructions that are listed for a block. -/
def inBlock (q : BlockId) (added : List (BlockId × Instr)) : List Instr :=
  (added.filter fun e => e.1 = q).map Prod.snd

@[simp] theorem inBlock_append (q : BlockId) (added more : List (BlockId × Instr)) :
    inBlock q (added ++ more) = inBlock q added ++ inBlock q more := by
  simp [inBlock]

@[simp] theorem mem_inBlock {q : BlockId} {i : Instr} {added : List (BlockId × Instr)} :
    i ∈ inBlock q added ↔ (q, i) ∈ added := by
  simp [inBlock]

namespace Operation

/-- What an operation puts in, and into which block, if it succeeds. -/
def insertion (op : Operation) (b : Builder) : List (BlockId × Instr) :=
  match op with
  | .arith op left right => [(b.cursor.block, .arith ⟨b.body.nextValue⟩ op left right)]
  | .compare cond left right => [(b.cursor.block, .compare ⟨b.body.nextValue⟩ cond left right)]
  | .load ty address => [(b.cursor.block, .load ⟨b.body.nextValue⟩ ty address)]
  | .store address value => [(b.cursor.block, .store address value)]
  | .call callee args => [(b.cursor.block, .call ⟨b.body.nextValue⟩ callee args)]
  | .phi ty incoming => [(b.cursor.block, .phi ⟨b.body.nextValue⟩ ty incoming)]
  | .alloca name ty => [(b.body.entry, .alloca ⟨b.body.slots.length⟩ ty name)]
  | _ => []

/-- What an operation puts in; one that fails puts nothing in. -/
def written (op : Operation) (b : Builder) : List (BlockId × Instr) :=
  if (op.perform b).1.isOk then op.insertion b else []

end Operation

/-- What operations put in, done one after the other. -/
def Builder.written (b : Builder) : List Operation → List (BlockId × Instr)
  | [] => []
  | op :: ops => op.written b ++ (op.apply b).written ops

/-! ## Bodies that grow -/

namespace Body

/-- A body and the same with some instructions more, and perhaps with more blocks, terminators
and slots. -/
structure Adds (body : Body) (added : List (BlockId × Instr)) (body' : Body) : Prop where
  code : ∀ q, (body'.code q).Perm (body.code q ++ inBlock q added)
  order : ∀ q, (body.code q).Sublist (body'.code q)
  exit : ∀ q, body.exit q = .missing ∨ body'.exit q = body.exit q
  entry : body'.entry = body.entry
  values : body.nextValue ≤ body'.nextValue
  fresh : ∀ v ∈ added.filterMap (·.2.result?),
    body.nextValue ≤ v.index ∧ v.index < body'.nextValue
  distinct : (added.filterMap (·.2.result?)).Nodup
  slots : ∃ new, body'.slots = body.slots ++ new ∧
    new.map StackSlot.id = (List.range' body.slots.length new.length).map SlotId.mk ∧
    added.filter (·.2.isAlloca) = new.map fun s => (body.entry, s.allocation)

namespace Adds

variable {body body' body'' : Body} {added more : List (BlockId × Instr)}

/-- Nothing is put in. -/
theorem of_code (hcode : ∀ q, body'.code q = body.code q)
    (hexit : ∀ q, body.exit q = .missing ∨ body'.exit q = body.exit q)
    (hentry : body'.entry = body.entry) (hslots : body'.slots = body.slots)
    (hvalues : body.nextValue ≤ body'.nextValue) : body.Adds [] body' where
  code q := by rw [hcode]; simp [inBlock]
  order q := by rw [hcode]
  exit := hexit
  entry := hentry
  values := hvalues
  fresh := by simp
  distinct := by simp
  slots := ⟨[], by simp [hslots]⟩

theorem refl (body : Body) : body.Adds [] body :=
  of_code (fun _ => rfl) (fun _ => .inr rfl) rfl rfl (Nat.le_refl _)

theorem trans (h : body.Adds added body') (h' : body'.Adds more body'') :
    body.Adds (added ++ more) body'' where
  code q := by
    rw [inBlock_append, ← List.append_assoc]
    exact (h'.code q).trans ((h.code q).append_right _)
  order q := (h.order q).trans (h'.order q)
  exit q := by
    rcases h.exit q with hopen | hkept
    · exact .inl hopen
    · rcases h'.exit q with hopen | hkept'
      · exact .inl (hkept ▸ hopen)
      · exact .inr (hkept'.trans hkept)
  entry := h'.entry.trans h.entry
  values := Nat.le_trans h.values h'.values
  fresh v hv := by
    rw [List.filterMap_append, List.mem_append] at hv
    rcases hv with hv | hv
    · exact ⟨(h.fresh v hv).1, Nat.lt_of_lt_of_le (h.fresh v hv).2 h'.values⟩
    · exact ⟨Nat.le_trans h.values (h'.fresh v hv).1, (h'.fresh v hv).2⟩
  distinct := by
    rw [List.filterMap_append]
    refine h.distinct.append h'.distinct fun v hv hv' => ?_
    exact absurd (h.fresh v hv).2 (Nat.not_lt.2 (h'.fresh v hv').1)
  slots := by
    obtain ⟨new, hslots, hids, hallocas⟩ := h.slots
    obtain ⟨new', hslots', hids', hallocas'⟩ := h'.slots
    refine ⟨new ++ new', by rw [hslots', hslots, List.append_assoc], ?_, ?_⟩
    · rw [hslots, List.length_append] at hids'
      rw [List.map_append, hids, hids', List.length_append, ← List.range'_append_1,
        List.map_append]
    · rw [List.filter_append, hallocas, hallocas', h.entry, List.map_append]

/-- An instruction is put in among those of a block, which stay in order. -/
theorem put {p : BlockId} {blk : Block} {i : Instr} {instrs : List Instr}
    (hblk : body.block? p = some blk)
    (hblocks : body'.blocks = (body.modifyBlock p fun blk => { blk with instrs }).blocks)
    (hperm : instrs.Perm (i :: blk.instrs)) (horder : blk.instrs.Sublist instrs)
    (hentry : body'.entry = body.entry) (hvalues : body.nextValue ≤ body'.nextValue)
    (hfresh : ∀ v, i.result? = some v → body.nextValue ≤ v.index ∧ v.index < body'.nextValue)
    (hslots : ∃ new, body'.slots = body.slots ++ new ∧
      new.map StackSlot.id = (List.range' body.slots.length new.length).map SlotId.mk ∧
      [(p, i)].filter (·.2.isAlloca) = new.map fun s => (body.entry, s.allocation)) :
    body.Adds [(p, i)] body' := by
  have hcode (q : BlockId) : body'.code q = if q = p then instrs else body.code q := by
    rw [← Body.code_modifyBlock hblk fun blk => { blk with instrs }]
    simp only [Body.code, Body.block?, hblocks]
  have hexit (q : BlockId) : body'.exit q = body.exit q := by
    have hq := Body.exit_modifyBlock hblk (fun blk => { blk with instrs }) q
    have hq' : body'.exit q = (body.modifyBlock p fun blk => { blk with instrs }).exit q := by
      simp only [Body.exit, Body.block?, hblocks]
    rw [hq', hq]
    split
    · next heq => rw [heq, Body.exit_of_block hblk]
    · rfl
  refine ⟨fun q => ?_, fun q => ?_, fun q => .inr (hexit q), hentry, hvalues, ?_, ?_, hslots⟩
  · rw [hcode]
    by_cases hq : q = p
    · subst hq
      rw [if_pos rfl, Body.code_of_block hblk]
      simpa [inBlock] using hperm.trans (List.perm_append_singleton i blk.instrs).symm
    · rw [if_neg hq]
      simp [inBlock, Ne.symm hq]
  · rw [hcode]
    by_cases hq : q = p
    · subst hq
      rwa [if_pos rfl, Body.code_of_block hblk]
    · rw [if_neg hq]
  · intro v hv
    cases hresult : i.result? with
    | none => simp [hresult] at hv
    | some r =>
      obtain rfl : v = r := by simpa [hresult] using hv
      exact hfresh v hresult
  · cases hresult : i.result? <;> simp [hresult]

end Adds

end Body

/-! ## Operations -/

namespace Build

variable {α : Type}

/-- A computation puts in what is listed if it succeeds, and nothing if it fails. -/
def Writes (x : Build α) (w : Builder → List (BlockId × Instr)) : Prop :=
  ∀ b : Builder, b.body.Orderly →
    b.body.Adds (if (x b).1.isOk then w b else []) (x b).2.body

theorem Writes.void {x : Build α} {w : Builder → List (BlockId × Instr)} (h : Writes x w) :
    Writes (x >>= fun _ => pure ()) w := by
  intro b hb
  have hx := h b hb
  rcases hrun : x b with ⟨e | a, b'⟩
  · rw [bind_of_error hrun]
    rwa [hrun] at hx
  · rw [bind_of_ok hrun]
    rwa [hrun] at hx

theorem Writes.update {f : Builder → Except BuildError Builder}
    {w : Builder → List (BlockId × Instr)}
    (h : ∀ b b', b.body.Orderly → f b = .ok b' → b.body.Adds (w b) b'.body) :
    Writes (update f) w := by
  intro b hb
  rcases hf : f b with e | b'
  · rw [update_of_error hf]
    exact .refl b.body
  · rw [update_of_ok hf]
    exact h b b' hb hf

/-- An instruction that is put in at the cursor comes to its place in the block of the cursor. -/
theorem inserted_eq_ok {b b' : Builder} {i : Instr} (h : b.inserted i = .ok b') :
    ∃ blk, b.body.block? b.cursor.block = some blk ∧ b' = { b with
      body := b.body.modifyBlock b.cursor.block fun blk' =>
        { blk' with instrs := (b.cursor.place i blk.instrs).1 }
      cursor := (b.cursor.place i blk.instrs).2 } := by
  unfold Builder.inserted at h
  cases hblk : b.body.block? b.cursor.block with
  | none =>
    simp only [hblk] at h
    cases h
  | some blk =>
    simp only [hblk] at h
    split at h
    · cases h
    · cases h
      exact ⟨blk, rfl, rfl⟩

/-- An instruction that computes a value is put in with a new number, or the number is lost. -/
theorem compute_cases (i : ValueId → Instr) (b : Builder) :
    (∃ b', { b with body := b.body.freshValue.2 }.inserted (i ⟨b.body.nextValue⟩) = .ok b' ∧
      compute i b = (.ok (.temp ⟨b.body.nextValue⟩), b')) ∨
    ∃ e, compute i b = (.error e, { b with body := b.body.freshValue.2 }) := by
  have hrun : compute i b = (insert (i ⟨b.body.nextValue⟩) >>= fun _ =>
    pure (.temp ⟨b.body.nextValue⟩)) { b with body := b.body.freshValue.2 } := rfl
  rw [hrun]
  rcases hinserted : Builder.inserted { b with body := b.body.freshValue.2 }
      (i ⟨b.body.nextValue⟩) with e | b'
  · have hinsert : insert (i ⟨b.body.nextValue⟩) _ = _ := update_of_error hinserted
    rw [bind_of_error hinsert]
    exact .inr ⟨e, rfl⟩
  · have hinsert : insert (i ⟨b.body.nextValue⟩) _ = _ := update_of_ok hinserted
    rw [bind_of_ok hinsert]
    exact .inl ⟨b', rfl, rfl⟩

/-- A slot can be added to every builder, since the entry block is there. -/
theorem alloca_of_orderly {b : Builder} (hb : b.body.Orderly) (name : String) (ty : Ty) :
    ∃ blk, b.body.block? b.body.entry = some blk ∧
      alloca name ty b = (.ok ⟨b.body.slots.length⟩, { b with
        body := (b.body.addSlot name ty).2.modifyBlock b.body.entry fun blk' => { blk' with
          instrs := blk.instrs.insertIdx (min b.sunk blk.instrs.length)
            (.alloca ⟨b.body.slots.length⟩ ty name) }
        sunk := b.sunk + 1 }) := by
  obtain ⟨blk, hblk⟩ := hb.exists_entry
  let added : Builder := { b with body := (b.body.addSlot name ty).2 }
  let i : Instr := .alloca ⟨b.body.slots.length⟩ ty name
  have hrun : alloca name ty b =
      (update (fun b => b.sinkAlloca i) >>= fun _ => pure ⟨b.body.slots.length⟩) added := rfl
  have hsink : added.sinkAlloca i = .ok { added with
      body := added.body.modifyBlock added.body.entry fun blk' =>
        { blk' with instrs := blk.instrs.insertIdx (min b.sunk blk.instrs.length) i }
      sunk := b.sunk + 1 } := by
    have hadded : added.body.block? added.body.entry = some blk := hblk
    simp only [Builder.sinkAlloca, hadded]
    rfl
  rw [hrun, bind_of_ok (update_of_ok hsink)]
  exact ⟨blk, hblk, rfl⟩

theorem writes_store (address value : Operand) :
    Writes (store address value) fun b => [(b.cursor.block, .store address value)] := by
  refine Writes.update fun b b' _ h => ?_
  obtain ⟨blk, hblk, rfl⟩ := inserted_eq_ok h
  refine .put hblk rfl (b.cursor.place_perm ..) (b.cursor.sublist_place ..) rfl (Nat.le_refl _)
    nofun ⟨[], ?_⟩
  simp [Body.modifyBlock, Instr.isAlloca]

theorem writes_compute {i : ValueId → Instr} (hresult : ∀ v, (i v).result? = some v)
    (hcomputes : ∀ v, (i v).isAlloca = false) :
    Writes (compute i) fun b => [(b.cursor.block, i ⟨b.body.nextValue⟩)] := by
  intro b _
  rcases compute_cases i b with ⟨b', hinserted, hrun⟩ | ⟨e, hrun⟩
  · rw [hrun]
    obtain ⟨blk, hblk, rfl⟩ := inserted_eq_ok hinserted
    refine .put hblk rfl (b.cursor.place_perm ..) (b.cursor.sublist_place ..) rfl
      (Nat.le_succ _) ?_ ⟨[], ?_⟩
    · intro v hv
      rw [hresult] at hv
      cases hv
      exact ⟨Nat.le_refl _, Nat.lt_succ_self _⟩
    · simp [Body.modifyBlock, Body.freshValue, hcomputes]
  · rw [hrun]
    exact .of_code (fun _ => rfl) (fun _ => .inr rfl) rfl rfl (Nat.le_succ _)

theorem writes_alloca (name : String) (ty : Ty) :
    Writes (alloca name ty) fun b => [(b.body.entry, .alloca ⟨b.body.slots.length⟩ ty name)] := by
  intro b hb
  obtain ⟨blk, hblk, hrun⟩ := alloca_of_orderly hb name ty
  rw [hrun]
  have hperm := List.perm_insertIdx (.alloca ⟨b.body.slots.length⟩ ty name) blk.instrs
    (Nat.min_le_right b.sunk blk.instrs.length)
  refine .put hblk rfl hperm (List.sublist_insertIdx ..) rfl (Nat.le_refl _) ?_
    ⟨[⟨⟨b.body.slots.length⟩, name, ty⟩], rfl, ?_, ?_⟩
  · intro v hv
    cases hv
  · simp
  · simp [Instr.isAlloca, StackSlot.allocation]

theorem writes_seal (t : Terminator) : Writes (update fun b => b.sealed t) fun _ => [] := by
  refine Writes.update fun b b' _ h => ?_
  unfold Builder.sealed at h
  cases hblk : b.body.block? b.cursor.block with
  | none =>
    simp only [hblk] at h
    cases h
  | some blk =>
    simp only [hblk] at h
    split at h
    · cases h
    · next hopen =>
      cases h
      refine .of_code (fun q => ?_) (fun q => ?_) rfl rfl (Nat.le_refl _)
      · rw [Body.code_modifyBlock hblk]
        split
        · next hq => rw [hq, Body.code_of_block hblk]
        · rfl
      · rw [Body.exit_modifyBlock hblk]
        split
        · next hq =>
          refine .inl ?_
          rw [hq, Body.exit_of_block hblk]
          simpa [Block.isTerminated] using hopen
        · exact .inr rfl

theorem writes_createBlock (name : String) : Writes (createBlock name) fun _ => [] := by
  intro b hb
  have hnone : b.body.block? ⟨b.body.nextBlock⟩ = none := by
    refine (b.body.blocks.find?_eq_none_iff _).2 fun hmem => ?_
    exact absurd (hb.mem_keys.1 hmem) (Nat.lt_irrefl _)
  have hnew : (b.body.createBlock name).2.block? ⟨b.body.nextBlock⟩ =
      some (.opened ⟨b.body.nextBlock⟩ name) :=
    (Body.block?_createBlock ..).trans (if_pos rfl)
  have hold {q : BlockId} (hq : q ≠ ⟨b.body.nextBlock⟩) :
      (b.body.createBlock name).2.block? q = b.body.block? q :=
    (Body.block?_createBlock ..).trans (if_neg hq.symm)
  refine .of_code (fun q => ?_) (fun q => ?_) rfl rfl (Nat.le_refl _)
  · change (b.body.createBlock name).2.code q = b.body.code q
    by_cases hq : q = ⟨b.body.nextBlock⟩
    · rw [hq, Body.code_of_none hnone, Body.code_of_block hnew]
      rfl
    · unfold Body.code
      rw [hold hq]
  · change _ ∨ (b.body.createBlock name).2.exit q = b.body.exit q
    by_cases hq : q = ⟨b.body.nextBlock⟩
    · exact .inl (hq ▸ Body.exit_of_none hnone)
    · unfold Body.exit
      rw [hold hq]
      exact .inr rfl

theorem writes_moveAfter (block anchor : BlockId) :
    Writes (moveAfter block anchor) fun _ => [] := by
  refine Writes.update fun b b' _ h => ?_
  cases hmoved : relocate b.body.layout block anchor with
  | error e =>
    simp only [Body.moveAfter, hmoved] at h
    cases h
  | ok layout =>
    simp only [Body.moveAfter, hmoved] at h
    cases h
    exact .of_code (fun _ => rfl) (fun _ => .inr rfl) rfl rfl (Nat.le_refl _)

theorem writes_switchTo (block : BlockId) : Writes (switchTo block) fun _ => [] := by
  refine Writes.update fun b b' _ h => ?_
  cases hblk : b.body.block? block with
  | none => simp [hblk] at h
  | some blk =>
    simp only [hblk, Except.ok.injEq] at h
    subst h
    exact .refl b.body

theorem writes_goto (cursor : Cursor) :
    Writes (update fun b => .ok { b with cursor }) fun _ => [] := by
  refine Writes.update fun b b' _ h => ?_
  cases h
  exact .refl b.body

end Build

/-- **Every operation puts in what it says, if it succeeds, and nothing otherwise.** -/
theorem Operation.writes (op : Operation) : Build.Writes op.perform op.insertion := by
  cases op with
  | createBlock name => exact (Build.writes_createBlock name).void
  | switchTo block => exact Build.writes_switchTo block
  | gotoStart block => exact Build.writes_goto (.blockStart block)
  | gotoEnd block => exact Build.writes_goto (.blockEnd block)
  | moveAfter block anchor => exact Build.writes_moveAfter block anchor
  | arith op left right => exact (Build.writes_compute (fun _ => rfl) fun _ => rfl).void
  | compare cond left right => exact (Build.writes_compute (fun _ => rfl) fun _ => rfl).void
  | load ty address => exact (Build.writes_compute (fun _ => rfl) fun _ => rfl).void
  | store address value => exact Build.writes_store address value
  | call callee args => exact (Build.writes_compute (fun _ => rfl) fun _ => rfl).void
  | phi ty incoming => exact (Build.writes_compute (fun _ => rfl) fun _ => rfl).void
  | alloca name ty => exact (Build.writes_alloca name ty).void
  | jump target => exact Build.writes_seal _
  | branch condition yes no => exact Build.writes_seal _
  | ret value => exact Build.writes_seal _

/-- The body after some operations has the instructions more that they put in. -/
theorem Builder.adds_after {b : Builder} (hb : b.body.Orderly) (ops : List Operation) :
    b.body.Adds (b.written ops) (b.after ops).body := by
  induction ops generalizing b with
  | nil => exact .refl b.body
  | cons op ops ih => exact (op.writes b hb).trans (ih (op.keepsOrder b hb))

/-! ## Whole bodies -/

namespace Body

theorem code_initial (q : BlockId) : initial.code q = [] := by
  unfold initial code block?
  rw [Table.find?_insert]
  split <;> rfl

namespace Adds

variable {body : Body} {added : List (BlockId × Instr)}

/-- A block has what was put into it and nothing else. -/
theorem code_perm (h : Body.initial.Adds added body) (q : BlockId) :
    (body.code q).Perm (inBlock q added) := by
  simpa [code_initial] using h.code q

/-- A value is computed in one block only. -/
theorem apart (h : Body.initial.Adds added body) {p q : BlockId} {v : ValueId}
    (hp : v ∈ (body.code p).filterMap Instr.result?)
    (hq : v ∈ (body.code q).filterMap Instr.result?) : p = q := by
  obtain ⟨i, hi, hv⟩ := List.mem_filterMap.1 hp
  obtain ⟨j, hj, hv'⟩ := List.mem_filterMap.1 hq
  rw [(h.code_perm p).mem_iff, mem_inBlock] at hi
  rw [(h.code_perm q).mem_iff, mem_inBlock] at hj
  by_contra hne
  have hdistinct := List.pairwise_filterMap.1 h.distinct
  have : Std.Symm fun e e' : BlockId × Instr => ∀ v, e.2.result? = some v →
      ∀ v', e'.2.result? = some v' → v ≠ v' :=
    ⟨fun e e' hee v hv v' hv' heq => hee v' hv' v hv heq.symm⟩
  exact hdistinct.forall hi hj (fun heq => hne (congrArg Prod.fst heq)) v hv v hv' rfl

/-- Within a block a value is computed once. -/
theorem nodup_code (h : Body.initial.Adds added body) (q : BlockId) :
    ((body.code q).filterMap Instr.result?).Nodup := by
  rw [((h.code_perm q).filterMap Instr.result?).nodup_iff, inBlock, List.filterMap_map]
  exact (List.filter_sublist.filterMap _).nodup h.distinct

theorem nodup_definedValues (h : Body.initial.Adds added body) : body.definedValues.Nodup := by
  have hcode : ∀ e ∈ body.blocks.entries, body.code e.1 = e.2.instrs := fun e he =>
    Body.code_of_block ((body.blocks.find?_eq_some_iff e.1 e.2).2 he)
  unfold definedValues Table.values
  rw [List.nodup_flatMap, List.forall_mem_map, List.pairwise_map]
  constructor
  · intro e he
    rw [← hcode e he]
    exact h.nodup_code e.1
  · refine (List.pairwise_map.1 body.blocks.nodup).imp_of_mem fun {e e'} he he' hne => ?_
    intro v hv hv'
    refine hne (h.apart (v := v) ?_ ?_)
    · rwa [hcode e he]
    · rwa [hcode e' he']

theorem drawn (h : Body.initial.Adds added body) :
    ∀ v ∈ body.definedValues, v.index < body.nextValue := by
  intro v hv
  obtain ⟨blk, hblk, hv⟩ := List.mem_flatMap.1 hv
  obtain ⟨⟨q, _⟩, he, rfl⟩ := List.mem_map.1 hblk
  obtain ⟨i, hi, hv⟩ := List.mem_filterMap.1 hv
  have hcode := Body.code_of_block ((body.blocks.find?_eq_some_iff q _).2 he)
  rw [← hcode, (h.code_perm q).mem_iff, mem_inBlock] at hi
  exact (h.fresh v (List.mem_filterMap.2 ⟨_, hi, hv⟩)).2

theorem slot_ids (h : Body.initial.Adds added body) {id : SlotId} {s : StackSlot}
    (hs : body.slot? id = some s) : s.id = id := by
  obtain ⟨new, hslots, hids, -⟩ := h.slots
  obtain rfl : body.slots = new := hslots
  have hlt : id.index < body.slots.length := (List.getElem?_eq_some_iff.1 hs).1
  have hid : (body.slots.map StackSlot.id)[id.index]? = some id := by
    rw [hids, List.getElem?_map, List.getElem?_range' hlt]
    simp [Body.initial]
  rw [List.getElem?_map, show body.slots[id.index]? = some s from hs] at hid
  exact Option.some.inj hid

theorem filter_isAlloca (h : Body.initial.Adds added body) (q : BlockId) :
    ((body.code q).filter Instr.isAlloca).Perm
      (if q = body.entry then body.slots.map StackSlot.allocation else []) := by
  obtain ⟨new, hslots, -, hallocas⟩ := h.slots
  obtain rfl : body.slots = new := hslots
  have hput : (inBlock q added).filter Instr.isAlloca =
      inBlock q (added.filter (·.2.isAlloca)) := by
    rw [inBlock, inBlock, List.filter_map, List.filter_filter, List.filter_filter]
    simp only [Function.comp_def, Bool.and_comm]
  refine ((h.code_perm q).filter _).trans ?_
  rw [hput, hallocas, ← h.entry, inBlock, List.filter_map, List.map_map]
  by_cases hq : q = body.entry
  · subst hq
    simp [Function.comp_def]
  · simp [Function.comp_def, hq, Ne.symm hq]

theorem regular (h : Body.initial.Adds added body) (horderly : body.Orderly) : body.Regular where
  toOrderly := horderly
  once := horderly.layout.nodup_iff.2 body.blocks.nodup
  slots := h.slot_ids
  distinct := h.nodup_definedValues
  drawn := h.drawn
  allocations := by simpa using h.filter_isAlloca body.entry
  sunk {q i} hi halloca := by
    by_contra hq
    have hnone := h.filter_isAlloca q
    rw [if_neg hq, List.perm_nil] at hnone
    exact List.not_mem_nil (hnone ▸ List.mem_filter.2 ⟨hi, halloca⟩)

end Adds

end Body

/-- **Whatever is done while a function is built, its body stays regular and keeps what it has.**
The blocks, slots and values have the numbers that were drawn for them, and the allocations of the
slots are in the entry block; a block has the instructions that were put into it and no others, each
as often as it was put in; whatever is done next, they stay in order and a terminator stays what it
is. -/
theorem Builder.after_regular (signature : Signature) (ops : List Operation) :
    ((start signature).after ops).body.Regular ∧
    (∀ q, (((start signature).after ops).body.code q).Perm
      (inBlock q ((start signature).written ops))) ∧
    ∀ more q,
      (((start signature).after ops).body.code q).Sublist
        ((((start signature).after ops).after more).body.code q) ∧
      (((start signature).after ops).body.exit q = .missing ∨
        (((start signature).after ops).after more).body.exit q =
          ((start signature).after ops).body.exit q) := by
  have horderly := Body.Orderly.build signature ops
  have hadds : Body.initial.Adds ((start signature).written ops)
      ((start signature).after ops).body :=
    Builder.adds_after (b := start signature) Body.Orderly.initial ops
  refine ⟨hadds.regular horderly, hadds.code_perm, fun more q => ?_⟩
  have hmore := Builder.adds_after horderly more
  exact ⟨hmore.order q, hmore.exit q⟩

-- The allocations need not be in the order of the slots: what is put in at the start of the entry
-- block moves them down, and the next one is sunk by count.
example : ((Builder.start ⟨"main", [], .i32, false⟩).after
    [.alloca "x" .i32, .gotoStart ⟨0⟩, .store (.slot ⟨0⟩) (.const (.int 1)),
      .alloca "y" .i32]).body.code ⟨0⟩ =
    [.store (.slot ⟨0⟩) (.const (.int 1)), .alloca ⟨1⟩ .i32 "y", .alloca ⟨0⟩ .i32 "x"] := by
  decide

end SexprSsa
