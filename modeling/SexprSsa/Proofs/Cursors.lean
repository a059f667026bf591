/-
SexprSsa.Proofs.Cursors — the place that a cursor denotes.

A cursor divides the instructions of its block into those before it and those
behind it. An instruction that is put in comes in between, and the cursor ends
up behind it. An allocation goes to the top of the entry block instead; the
cursor is left as it is written, which is an index where it stands after an
instruction. So there are four things an operation can do to the instructions
and the cursor (`Operation.acts`), and what holds of every builder is shown for
these four (`Anchored.after`).
-/
import SexprSsa.Proofs.DraftOperations
import SexprSsa.Proofs.Representation

namespace SexprSsa

/-! ## Before and behind a cursor -/

namespace Cursor

/-- The instructions before a cursor and those behind it. -/
def split (cursor : Cursor) (instrs : List Instr) : List Instr × List Instr :=
  match cursor with
  | .blockStart _ => ([], instrs)
  | .blockEnd _ => (instrs, [])
  | .after _ index => (instrs.take (index + 1), instrs.drop (index + 1))

theorem split_append (cursor : Cursor) (instrs : List Instr) :
    (cursor.split instrs).1 ++ (cursor.split instrs).2 = instrs := by
  cases cursor <;> simp [split]

/-- An instruction is put in between the two sides of the cursor. -/
theorem place_eq_append (cursor : Cursor) (i : Instr) (instrs : List Instr) :
    (cursor.place i instrs).1 = (cursor.split instrs).1 ++ i :: (cursor.split instrs).2 := by
  cases cursor with
  | blockStart q => rfl
  | blockEnd q => rfl
  | after q index =>
    simp only [place, split]
    rw [Builder.insertIdx_eq_append i (Nat.min_le_right ..)]
    by_cases h : index + 1 ≤ instrs.length
    · rw [Nat.min_eq_left h]
    · have hle : instrs.length ≤ index + 1 := by omega
      rw [Nat.min_eq_right hle, List.take_of_length_le hle, List.drop_of_length_le hle]
      simp

/-- Behind the instruction that was put in, the cursor has the same as it had. -/
theorem split_place (cursor : Cursor) (i : Instr) (instrs : List Instr) :
    (cursor.place i instrs).2.split (cursor.place i instrs).1 =
      ((cursor.split instrs).1 ++ [i], (cursor.split instrs).2) := by
  rw [place_eq_append]
  cases cursor with
  | blockStart q => simp [place, split]
  | blockEnd q => simp [place, split]
  | after q index =>
    have hlength : min (index + 1) instrs.length + 1 = (instrs.take (index + 1) ++ [i]).length := by
      simp
    simp only [place, split]
    rw [List.append_cons (instrs.take (index + 1)) i, hlength, List.take_left, List.drop_left]

end Cursor

namespace Builder

/-- The instructions before the cursor, in its block. -/
def before (b : Builder) : List Instr := (b.cursor.split (b.body.code b.cursor.block)).1

/-- The instructions behind the cursor, in its block. -/
def behind (b : Builder) : List Instr := (b.cursor.split (b.body.code b.cursor.block)).2

theorem before_append_behind (b : Builder) :
    b.before ++ b.behind = b.body.code b.cursor.block :=
  b.cursor.split_append _

end Builder

/-! ## What an operation does -/

namespace Operation

/-- Whether an operation puts the cursor somewhere else. -/
def turns : Operation → Bool
  | .switchTo _ | .gotoStart _ | .gotoEnd _ => true
  | _ => false

/-- Whether an operation adds a slot. -/
def allocates : Operation → Bool
  | .alloca .. => true
  | _ => false

end Operation

namespace Builder

/-- An instruction that is no allocation is put in at the cursor. -/
structure Inserts (b : Builder) (i : Instr) (b' : Builder) : Prop where
  plain : i.isAlloca = false
  code : ∀ q, b'.body.code q =
    if q = b.cursor.block then (b.cursor.place i (b.body.code q)).1 else b.body.code q
  cursor : b'.cursor = (b.cursor.place i (b.body.code b.cursor.block)).2
  entry : b'.body.entry = b.body.entry
  slots : b'.body.slots = b.body.slots
  sunk : b'.sunk = b.sunk

/-- A slot is added and its allocation sunk. -/
structure Sinks (b : Builder) (s : StackSlot) (b' : Builder) : Prop where
  fresh : s.id = ⟨b.body.slots.length⟩
  code : ∀ q, b'.body.code q =
    if q = b.body.entry then
      (b.body.code q).insertIdx (min b.sunk (b.body.code q).length) s.allocation
    else b.body.code q
  cursor : b'.cursor = b.cursor
  entry : b'.body.entry = b.body.entry
  slots : b'.body.slots = b.body.slots ++ [s]
  sunk : b'.sunk = b.sunk + 1

/-- No instruction is put in. -/
structure Rests (b b' : Builder) : Prop where
  code : ∀ q, b'.body.code q = b.body.code q
  entry : b'.body.entry = b.body.entry
  slots : b'.body.slots = b.body.slots
  sunk : b'.sunk = b.sunk

end Builder

/-- What an operation does to the instructions and the cursor, and what it puts in. -/
inductive Operation.Acts (op : Operation) (b b' : Builder) : Prop
  | inserts (i : Instr) : b.Inserts i b' → op.written b = [(b.cursor.block, i)] → Acts op b b'
  | sinks (s : StackSlot) : b.Sinks s b' → op.allocates = true →
      op.written b = [(b.body.entry, s.allocation)] → Acts op b b'
  | rests : b.Rests b' → b'.cursor = b.cursor → op.written b = [] → Acts op b b'
  | turns : b.Rests b' → op.turns = true →
      (∃ q, b'.cursor = .blockStart q ∨ b'.cursor = .blockEnd q) → op.written b = [] →
      Acts op b b'

namespace Build

variable {b : Builder}

theorem void_apply {α : Type} (x : Build α) (b : Builder) :
    (x >>= fun _ => pure ()) b = ((x b).1.map fun _ => (), (x b).2) := by
  rcases hrun : x b with ⟨e | a, b'⟩
  · rw [bind_of_error hrun]
    rfl
  · rw [bind_of_ok hrun]
    rfl

/-- A body into which nothing is put has the instructions and the slots that it had. -/
theorem rests_of_adds {b' : Builder} (h : b.body.Adds [] b'.body) (hsunk : b'.sunk = b.sunk) :
    b.Rests b' where
  code q := by
    have hperm := h.code q
    simp only [inBlock, List.filter_nil, List.map_nil, List.append_nil] at hperm
    exact ((h.order q).eq_of_length hperm.length_eq.symm).symm
  entry := h.entry
  slots := by
    obtain ⟨new, hslots, -, hnew⟩ := h.slots
    simp only [List.filter_nil, List.nil_eq, List.map_eq_nil_iff] at hnew
    rw [hslots, hnew, List.append_nil]
  sunk := hsunk

/-- An instruction that is put in comes to its place. -/
theorem inserted_inserts {b' : Builder} {i : Instr} (hplain : i.isAlloca = false)
    (h : b.inserted i = .ok b') : b.Inserts i b' := by
  obtain ⟨blk, hblk, rfl⟩ := inserted_eq_ok h
  refine ⟨hplain, ?_, ?_, rfl, rfl, rfl⟩
  · intro q
    rw [Body.code_modifyBlock hblk]
    by_cases hq : q = b.cursor.block
    · rw [if_pos hq, if_pos hq, hq, Body.code_of_block hblk]
    · rw [if_neg hq, if_neg hq]
  · rw [Body.code_of_block hblk]

end Build

namespace Operation

variable {b : Builder}

/-- A slot can be added to every builder. -/
theorem alloca_sinks (hb : b.body.Orderly) (name : String) (ty : Ty) :
    ((alloca name ty).perform b).1.isOk = true ∧
      b.Sinks ⟨⟨b.body.slots.length⟩, name, ty⟩ ((alloca name ty).apply b) := by
  obtain ⟨blk, hblk, hrun⟩ := Build.alloca_of_orderly hb name ty
  rw [apply, perform, Build.void_apply, hrun]
  refine ⟨rfl, rfl, ?_, rfl, rfl, rfl, rfl⟩
  intro q
  have hadded : (b.body.addSlot name ty).2.block? b.body.entry = some blk := hblk
  change Body.code (Body.modifyBlock _ b.body.entry _) q = _
  rw [Body.code_modifyBlock hadded]
  by_cases hq : q = b.body.entry
  · rw [if_pos hq, if_pos hq, hq, Body.code_of_block hblk]
    rfl
  · rw [if_neg hq, if_neg hq]
    rfl

/-- An operation that computes a value puts its instruction in or loses a number. -/
theorem acts_compute {op : Operation} {i : ValueId → Instr} (hplain : ∀ v, (i v).isAlloca = false)
    (hperform : op.perform = (Build.compute i >>= fun _ => pure ()))
    (hinsertion : op.insertion b = [(b.cursor.block, i ⟨b.body.nextValue⟩)]) :
    op.Acts b (op.apply b) := by
  have hrun := congrFun hperform b
  rw [Build.void_apply] at hrun
  rcases Build.compute_cases i b with ⟨b', hinserted, hcompute⟩ | ⟨e, hcompute⟩
  · rw [hcompute] at hrun
    have h := Build.inserted_inserts (hplain _) hinserted
    rw [apply, hrun]
    refine .inserts _ ⟨h.plain, h.code, h.cursor, h.entry, h.slots, h.sunk⟩ ?_
    rw [written, hrun, hinsertion]
    rfl
  · rw [hcompute] at hrun
    rw [apply, hrun]
    refine .rests ⟨fun _ => rfl, rfl, rfl, rfl⟩ rfl ?_
    rw [written, hrun]
    rfl

/-- An operation that puts nothing in and leaves the cursor where it stands. -/
theorem acts_rests {op : Operation} (hb : b.body.Orderly) (hinsertion : op.insertion b = [])
    (hkept : (op.apply b).cursor = b.cursor ∧ (op.apply b).sunk = b.sunk) :
    op.Acts b (op.apply b) := by
  have hwritten : op.written b = [] := by
    rw [written, hinsertion, ite_self]
  have hadds := op.writes b hb
  rw [hinsertion, ite_self] at hadds
  exact .rests (Build.rests_of_adds hadds hkept.2) hkept.1 hwritten

theorem update_cursor {f : Builder → Except BuildError Builder}
    (h : ∀ b', f b = .ok b' → b'.cursor = b.cursor ∧ b'.sunk = b.sunk) :
    (Build.update f b).2.cursor = b.cursor ∧ (Build.update f b).2.sunk = b.sunk := by
  rcases hf : f b with e | b'
  · rw [Build.update_of_error hf]
    exact ⟨rfl, rfl⟩
  · rw [Build.update_of_ok hf]
    exact h b' hf

/-- Ending a block leaves the cursor where it stands. -/
theorem sealed_cursor (b : Builder) (t : Terminator) :
    (Build.update (fun b => b.sealed t) b).2.cursor = b.cursor ∧
      (Build.update (fun b => b.sealed t) b).2.sunk = b.sunk := by
  refine update_cursor ?_
  intro b' h
  simp only [Builder.sealed] at h
  split at h
  · cases h
  · split at h
    · cases h
    · cases h
      exact ⟨rfl, rfl⟩

/-- So does laying a block out elsewhere. -/
theorem moveAfter_cursor (b : Builder) (block anchor : BlockId) :
    (Build.moveAfter block anchor b).2.cursor = b.cursor ∧
      (Build.moveAfter block anchor b).2.sunk = b.sunk := by
  refine update_cursor ?_
  intro b' h
  cases hmoved : b.body.moveAfter block anchor with
  | error e =>
    simp only [hmoved] at h
    cases h
  | ok body =>
    simp only [hmoved] at h
    cases h
    exact ⟨rfl, rfl⟩

/-- **Every operation does one of four things.** -/
theorem acts (op : Operation) (hb : b.body.Orderly) : op.Acts b (op.apply b) := by
  cases op with
  | arith op left right => exact acts_compute (fun _ => rfl) rfl rfl
  | compare cond left right => exact acts_compute (fun _ => rfl) rfl rfl
  | load ty address => exact acts_compute (fun _ => rfl) rfl rfl
  | call callee args => exact acts_compute (fun _ => rfl) rfl rfl
  | phi ty incoming => exact acts_compute (fun _ => rfl) rfl rfl
  | store address value =>
    rcases hinserted : b.inserted (.store address value) with e | b'
    · have hrun : Build.store address value b = (.error e, b) :=
        Build.update_of_error (f := fun b => b.inserted _) hinserted
      rw [apply, perform, hrun]
      refine .rests ⟨fun _ => rfl, rfl, rfl, rfl⟩ rfl ?_
      rw [written, perform, hrun]
      rfl
    · have hrun : Build.store address value b = (.ok (), b') :=
        Build.update_of_ok (f := fun b => b.inserted _) hinserted
      rw [apply, perform, hrun]
      refine .inserts _ (Build.inserted_inserts rfl hinserted) ?_
      rw [written, perform, hrun]
      rfl
  | alloca name ty =>
    obtain ⟨hok, hsinks⟩ := alloca_sinks hb name ty
    refine .sinks _ hsinks rfl ?_
    rw [written, hok]
    rfl
  | createBlock name => exact acts_rests hb rfl ⟨rfl, rfl⟩
  | moveAfter block anchor => exact acts_rests hb rfl (moveAfter_cursor b block anchor)
  | jump target => exact acts_rests hb rfl (sealed_cursor b _)
  | branch condition yes no => exact acts_rests hb rfl (sealed_cursor b _)
  | ret value => exact acts_rests hb rfl (sealed_cursor b _)
  | gotoStart block => exact .turns ⟨fun _ => rfl, rfl, rfl, rfl⟩ rfl ⟨block, .inl rfl⟩ rfl
  | gotoEnd block => exact .turns ⟨fun _ => rfl, rfl, rfl, rfl⟩ rfl ⟨block, .inr rfl⟩ rfl
  | switchTo block =>
    cases hblk : b.body.block? block with
    | none =>
      have hrun : Build.switchTo block b = (.error (.noSuchBlock block), b) := by
        simp only [Build.switchTo, Build.update, hblk]
      rw [apply, perform, hrun]
      exact .rests ⟨fun _ => rfl, rfl, rfl, rfl⟩ rfl (ite_self _)
    | some blk =>
      have hrun : Build.switchTo block b = (.ok (), { b with cursor := .blockEnd block }) := by
        simp only [Build.switchTo, Build.update, hblk]
      rw [apply, perform, hrun]
      exact .turns ⟨fun _ => rfl, rfl, rfl, rfl⟩ rfl ⟨block, .inr rfl⟩ (ite_self _)

end Operation

/-! ## What holds of every builder -/

/-- Whether an instruction is something else than the allocation of slot number `n` or of a later
one. -/
def Instr.isOlder (n : Nat) : Instr → Bool
  | .alloca slot .. => slot.index < n
  | _ => true

theorem Instr.isOlder_of_plain {i : Instr} (h : i.isAlloca = false) (n : Nat) :
    i.isOlder n = true := by
  cases i with
  | alloca slot ty name => cases h
  | _ => rfl

theorem Instr.isOlder_mono {i : Instr} {n n' : Nat} (h : i.isOlder n = true) (hle : n ≤ n') :
    i.isOlder n' = true := by
  cases i with
  | alloca slot ty name =>
    simp only [isOlder, decide_eq_true_eq] at h ⊢
    omega
  | _ => rfl

/-- A cursor that stands after an instruction stands after one that is there; the allocations that
were sunk are as many as there are slots, and no other slot has one. -/
structure Builder.Anchored (b : Builder) : Prop where
  orderly : b.body.Orderly
  within : ∀ {q i}, b.cursor = .after q i → i < (b.body.code q).length
  sunk : b.sunk = b.body.slots.length
  room : b.sunk ≤ (b.body.code b.body.entry).length
  older : ∀ {q i}, i ∈ b.body.code q → i.isOlder b.body.slots.length = true

namespace Builder

variable {b b' : Builder}

namespace Inserts

variable {i : Instr}

/-- The block of the cursor has the instruction between what was before and what was behind. -/
theorem code_cursor (h : b.Inserts i b') :
    b'.body.code b.cursor.block = b.before ++ i :: b.behind := by
  rw [h.code, if_pos rfl, Cursor.place_eq_append]
  rfl

theorem block_cursor (h : b.Inserts i b') : b'.cursor.block = b.cursor.block := by
  rw [h.cursor, Cursor.block_place]

theorem split_cursor (h : b.Inserts i b') :
    b'.before = b.before ++ [i] ∧ b'.behind = b.behind := by
  have hsplit : b'.cursor.split (b'.body.code b'.cursor.block) = (b.before ++ [i], b.behind) := by
    rw [h.block_cursor, h.code, if_pos rfl, h.cursor, Cursor.split_place]
    rfl
  unfold before behind at hsplit ⊢
  rw [hsplit]
  exact ⟨rfl, rfl⟩

theorem perm (h : b.Inserts i b') :
    (b'.body.code b.cursor.block).Perm (i :: b.body.code b.cursor.block) := by
  rw [h.code, if_pos rfl]
  exact b.cursor.place_perm ..

theorem length_le (h : b.Inserts i b') (q : BlockId) :
    (b.body.code q).length ≤ (b'.body.code q).length := by
  by_cases hq : q = b.cursor.block
  · rw [hq, h.perm.length_eq, List.length_cons]
    omega
  · simp [h.code, hq]

theorem anchored (h : b.Inserts i b') (hb : b.Anchored) (horderly : b'.body.Orderly) :
    b'.Anchored where
  orderly := horderly
  within {q index} hcursor := by
    rw [h.cursor] at hcursor
    have hlength := h.perm.length_eq
    simp only [List.length_cons] at hlength
    cases hc : b.cursor with
    | blockStart p =>
      rw [hc] at hcursor hlength
      simp only [Cursor.place, Cursor.after.injEq] at hcursor
      obtain ⟨rfl, rfl⟩ := hcursor
      simp only [Cursor.block] at hlength
      omega
    | blockEnd p =>
      rw [hc] at hcursor
      cases hcursor
    | after p i =>
      rw [hc] at hcursor hlength
      simp only [Cursor.place, Cursor.after.injEq] at hcursor
      obtain ⟨rfl, rfl⟩ := hcursor
      simp only [Cursor.block] at hlength ⊢
      omega
  sunk := by rw [h.sunk, h.slots, hb.sunk]
  room := by
    rw [h.sunk, h.entry]
    exact Nat.le_trans hb.room (h.length_le _)
  older {q j} hj := by
    rw [h.slots]
    by_cases hq : q = b.cursor.block
    · rw [hq, h.perm.mem_iff, List.mem_cons] at hj
      rcases hj with rfl | hj
      · exact Instr.isOlder_of_plain h.plain _
      · exact hb.older hj
    · rw [h.code, if_neg hq] at hj
      exact hb.older hj

end Inserts

namespace Sinks

variable {s : StackSlot}

/-- In the entry block the allocation comes after those that were sunk before. -/
theorem code_entry (h : b.Sinks s b') (hb : b.Anchored) :
    b'.body.code b.body.entry = (b.body.code b.body.entry).insertIdx b.sunk s.allocation := by
  rw [h.code, if_pos rfl, Nat.min_eq_left hb.room]

theorem isOlder_allocation (h : b.Sinks s b') (n : Nat) :
    s.allocation.isOlder n = decide (b.body.slots.length < n) := by
  simp [StackSlot.allocation, Instr.isOlder, h.fresh]

theorem anchored (h : b.Sinks s b') (hb : b.Anchored) (horderly : b'.body.Orderly) :
    b'.Anchored where
  orderly := horderly
  within {q i} hcursor := by
    rw [h.cursor] at hcursor
    have hlt := hb.within hcursor
    by_cases hq : q = b.body.entry
    · have hroom := hb.room
      rw [hq] at hlt ⊢
      rw [h.code_entry hb, List.length_insertIdx_of_le_length hroom]
      omega
    · rwa [h.code, if_neg hq]
  sunk := by simp [h.sunk, h.slots, hb.sunk]
  room := by
    have hroom := hb.room
    rw [h.sunk, h.entry, h.code_entry hb, List.length_insertIdx_of_le_length hroom]
    omega
  older {q j} hj := by
    have hold : j ∈ b.body.code q → j.isOlder b'.body.slots.length = true := by
      intro hj
      refine Instr.isOlder_mono (hb.older hj) ?_
      simp [h.slots]
    by_cases hq : q = b.body.entry
    · rw [hq, h.code_entry hb, List.mem_insertIdx hb.room] at hj
      rcases hj with rfl | hj
      · simp [h.isOlder_allocation, h.slots]
      · exact hold (hq ▸ hj)
    · rw [h.code, if_neg hq] at hj
      exact hold hj

end Sinks

theorem Rests.anchored (h : b.Rests b') (hb : b.Anchored) (horderly : b'.body.Orderly)
    (hcursor : ∀ {q i}, b'.cursor = .after q i → b.cursor = .after q i) : b'.Anchored where
  orderly := horderly
  within {q i} hc := by
    rw [h.code]
    exact hb.within (hcursor hc)
  sunk := by rw [h.sunk, h.slots, hb.sunk]
  room := by
    rw [h.sunk, h.entry, h.code]
    exact hb.room
  older {q i} hi := by
    rw [h.code] at hi
    rw [h.slots]
    exact hb.older hi

/-- Every operation keeps the cursor at instructions that are there. -/
theorem Anchored.apply (hb : b.Anchored) (op : Operation) : (op.apply b).Anchored := by
  have horderly : (op.apply b).body.Orderly := op.keepsOrder b hb.orderly
  cases op.acts hb.orderly with
  | inserts i h _ => exact h.anchored hb horderly
  | sinks s h _ _ => exact h.anchored hb horderly
  | rests h hcursor _ =>
    refine h.anchored hb horderly ?_
    intro q i hc
    rwa [← hcursor]
  | turns h _ hcursor _ =>
    refine h.anchored hb horderly ?_
    intro q i hc
    obtain ⟨p, hp | hp⟩ := hcursor <;> simp [hp] at hc

theorem Anchored.after (hb : b.Anchored) (ops : List Operation) : (b.after ops).Anchored := by
  induction ops generalizing b with
  | nil => exact hb
  | cons op ops ih => exact ih (hb.apply op)

theorem anchored_start (signature : Signature) : (start signature).Anchored where
  orderly := Body.Orderly.initial
  within {q i} hcursor := by cases hcursor
  sunk := rfl
  room := Nat.zero_le _
  older {q i} hi := by
    change i ∈ Body.initial.code q at hi
    rw [Body.code_initial] at hi
    cases hi

end Builder

end SexprSsa
