/-
SexprSsa.Proofs.Places — the place that a cursor denotes, and when it stays.

A cursor denotes the place between the instructions before it and those behind
it. What is put in there comes right before the cursor, so what a row of
operations puts in stands in the order of the row. Slots may be added
meanwhile: their allocations are not looked at here (`Instr.isOlder`), as they
go elsewhere or come in between without changing the order of the others.

Main statement: `after_place`. The place stays, unless an allocation is sunk
before the very instruction that the cursor stands after; that one, and no
other, moves the cursor by one instruction.
-/
import SexprSsa.Proofs.Cursors

namespace SexprSsa

/-! ## The place that stays -/

/-- Sinking an instruction behind the cursor, or right at it, leaves the others on their sides. -/
theorem Cursor.filter_split_insertIdx {cursor : Cursor} {a : Instr} {instrs : List Instr} {p : Nat}
    {keep : Instr → Bool} (hp : p ≤ instrs.length) (ha : keep a = false)
    (hcursor : ∀ q i, cursor = .after q i → i < p) :
    (cursor.split (instrs.insertIdx p a)).1.filter keep = (cursor.split instrs).1.filter keep ∧
      (cursor.split (instrs.insertIdx p a)).2.filter keep =
        (cursor.split instrs).2.filter keep := by
  rw [Builder.insertIdx_eq_append a hp]
  have hwhole : (instrs.take p ++ a :: instrs.drop p).filter keep = instrs.filter keep := by
    rw [List.filter_append, List.filter_cons_of_neg (by simp [ha]), ← List.filter_append,
      List.take_append_drop]
  cases cursor with
  | blockStart q => exact ⟨rfl, hwhole⟩
  | blockEnd q => exact ⟨hwhole, rfl⟩
  | after q i =>
    have hi := hcursor q i rfl
    have hlength : (instrs.take p).length = p := List.length_take_of_le hp
    have hrest : (instrs.take p).drop (i + 1) ++ instrs.drop p = instrs.drop (i + 1) := by
      have htake : instrs.take p ++ instrs.drop p = instrs := List.take_append_drop p instrs
      conv_rhs => rw [← htake]
      rw [List.drop_append_of_le_length (by omega)]
    constructor
    · simp only [split]
      rw [List.take_append_of_le_length (by omega), List.take_take, Nat.min_eq_left (by omega)]
    · simp only [split]
      rw [List.drop_append_of_le_length (by omega), ← hrest]
      simp [ha]

namespace Builder

/-- Whether the next allocation is sunk before the instruction that the cursor stands after. -/
def overtaken (b : Builder) : Bool :=
  match b.cursor with
  | .after block index => decide (block = b.body.entry) && decide (b.sunk ≤ index)
  | _ => false

/-- No allocation is sunk before the instruction that the cursor then stands after. -/
def Steady (b : Builder) : List Operation → Prop
  | [] => True
  | op :: ops => (op.allocates = true → b.overtaken = false) ∧ (op.apply b).Steady ops

instance decidableSteady : (b : Builder) → (ops : List Operation) → Decidable (b.Steady ops)
  | _, [] => inferInstanceAs (Decidable True)
  | b, op :: ops =>
    have := decidableSteady (op.apply b) ops
    inferInstanceAs (Decidable ((op.allocates = true → b.overtaken = false) ∧ _))

/-- What operations put in at the cursor: everything but the allocations. -/
def placed (b : Builder) (ops : List Operation) : List Instr :=
  ((b.written ops).map Prod.snd).filter fun i => !i.isAlloca

variable {b b' : Builder}

theorem placed_cons (b : Builder) (op : Operation) (ops : List Operation) :
    b.placed (op :: ops) =
      ((op.written b).map Prod.snd).filter (fun i => !i.isAlloca) ++ (op.apply b).placed ops := by
  simp [placed, written]

/-- All instructions about the cursor are older than the slots to come. -/
theorem filter_sides (hb : b.Anchored) :
    b.before.filter (Instr.isOlder b.body.slots.length) = b.before ∧
      b.behind.filter (Instr.isOlder b.body.slots.length) = b.behind := by
  have hall : ∀ i ∈ b.before ++ b.behind, i.isOlder b.body.slots.length = true := by
    intro i hi
    rw [before_append_behind] at hi
    exact hb.older hi
  rw [List.forall_mem_append] at hall
  exact ⟨List.filter_eq_self.2 hall.1, List.filter_eq_self.2 hall.2⟩

/-- An allocation leaves the sides of the cursor as they are, unless it overtakes. -/
theorem Sinks.sides {s : StackSlot} (h : b.Sinks s b') (hb : b.Anchored)
    (hsteady : b.overtaken = false) {n : Nat} (hn : n ≤ b.body.slots.length) :
    b'.before.filter (Instr.isOlder n) = b.before.filter (Instr.isOlder n) ∧
      b'.behind.filter (Instr.isOlder n) = b.behind.filter (Instr.isOlder n) := by
  unfold before behind
  rw [h.cursor]
  by_cases hq : b.cursor.block = b.body.entry
  · rw [hq, h.code_entry hb]
    refine Cursor.filter_split_insertIdx hb.room ?_ ?_
    · rw [h.isOlder_allocation]
      simpa using hn
    · intro q i hcursor
      rw [overtaken, hcursor] at hsteady
      rw [hcursor] at hq
      simp only [Cursor.block] at hq
      simpa [hq] using hsteady
  · rw [h.code, if_neg hq]
    exact ⟨rfl, rfl⟩

/-- The allocation that overtakes moves an instruction from before the cursor to behind it. -/
theorem Sinks.length_before_lt {s : StackSlot} (h : b.Sinks s b') (hb : b.Anchored)
    (hovertaken : b.overtaken = true) :
    (b'.before.filter (Instr.isOlder b.body.slots.length)).length < b.before.length := by
  cases hcursor : b.cursor with
  | blockStart q => simp [overtaken, hcursor] at hovertaken
  | blockEnd q => simp [overtaken, hcursor] at hovertaken
  | after q i =>
    simp only [overtaken, hcursor, Bool.and_eq_true, decide_eq_true_eq] at hovertaken
    obtain ⟨rfl, hle⟩ := hovertaken
    have hlt := hb.within hcursor
    have hroom := hb.room
    have hbefore : b'.before =
        ((b.body.code b.body.entry).insertIdx b.sunk s.allocation).take (i + 1) := by
      simp only [before, h.cursor, hcursor, Cursor.block, h.code_entry hb, Cursor.split]
    have hlength : b.before.length = i + 1 := by
      simp only [before, hcursor, Cursor.block, Cursor.split]
      exact List.length_take_of_le hlt
    have hlength' : b'.before.length = i + 1 := by
      rw [hbefore, List.length_take_of_le]
      rw [List.length_insertIdx_of_le_length hroom]
      omega
    rw [hlength, ← hlength', List.length_filter_lt_length_iff_exists]
    refine ⟨s.allocation, ?_, ?_⟩
    · rw [hbefore, List.mem_take_iff_getElem]
      refine ⟨b.sunk, ?_, List.getElem_insertIdx_self ..⟩
      rw [List.length_insertIdx_of_le_length hroom]
      omega
    · simp [h.isOlder_allocation]

/-- **One step at a place.** An operation that does not turn the cursor puts its instruction in
right before it and has the rest as it was. -/
theorem apply_sides (hb : b.Anchored) {op : Operation} (hturns : op.turns = false)
    (hsteady : op.allocates = true → b.overtaken = false) {n : Nat}
    (hn : n ≤ b.body.slots.length) :
    (op.apply b).cursor.block = b.cursor.block ∧
      (op.apply b).before.filter (Instr.isOlder n) = b.before.filter (Instr.isOlder n) ++
        ((op.written b).map Prod.snd).filter (fun i => !i.isAlloca) ∧
      (op.apply b).behind.filter (Instr.isOlder n) = b.behind.filter (Instr.isOlder n) := by
  cases op.acts hb.orderly with
  | inserts i h hwritten =>
    refine ⟨h.block_cursor, ?_, ?_⟩
    · rw [h.split_cursor.1, List.filter_append, hwritten]
      simp [Instr.isOlder_of_plain h.plain, h.plain]
    · rw [h.split_cursor.2]
  | sinks s h hallocates hwritten =>
    obtain ⟨hbefore, hbehind⟩ := h.sides hb (hsteady hallocates) hn
    refine ⟨by rw [h.cursor], ?_, hbehind⟩
    rw [hbefore, hwritten]
    simp [StackSlot.allocation, Instr.isAlloca]
  | rests h hcursor hwritten =>
    unfold before behind
    rw [hcursor, h.code, hwritten]
    simp
  | turns _ hturns' _ _ => simp [hturns] at hturns'

theorem length_slots_le (hb : b.Anchored) (op : Operation) :
    b.body.slots.length ≤ (op.apply b).body.slots.length := by
  cases op.acts hb.orderly with
  | inserts i h _ => simp [h.slots]
  | sinks s h _ _ => simp [h.slots]
  | rests h _ _ => simp [h.slots]
  | turns h _ _ _ => simp [h.slots]

/-- **A whole row at a place.** -/
theorem after_sides (hb : b.Anchored) {row : List Operation}
    (hturns : ∀ op ∈ row, op.turns = false) (hsteady : b.Steady row) {n : Nat}
    (hn : n ≤ b.body.slots.length) :
    (b.after row).cursor.block = b.cursor.block ∧
      (b.after row).before.filter (Instr.isOlder n) =
        b.before.filter (Instr.isOlder n) ++ b.placed row ∧
      (b.after row).behind.filter (Instr.isOlder n) = b.behind.filter (Instr.isOlder n) := by
  induction row generalizing b with
  | nil => simp [after, placed, written]
  | cons op row ih =>
    obtain ⟨hblock, hbefore, hbehind⟩ :=
      apply_sides hb (hturns op (by simp)) hsteady.1 hn
    obtain ⟨hblock', hbefore', hbehind'⟩ :=
      ih (hb.apply op) (fun op' hop' => hturns op' (by simp [hop'])) hsteady.2
        (Nat.le_trans hn (length_slots_le hb op))
    refine ⟨hblock'.trans hblock, ?_, hbehind'.trans hbehind⟩
    rw [placed_cons, ← List.append_assoc, ← hbefore]
    exact hbefore'

end Builder

/-- **What is put in without turning the cursor comes to the place that the cursor denotes.**
Whatever was done before, and whatever slots are added meanwhile: in the block of the cursor the new
instructions stand in order between what was before the cursor and what was behind it, with only
new allocations among them, and the cursor stays behind the last of them. That no allocation may be
sunk before the instruction that the cursor stands after is what it takes: such an allocation, and
no other, changes the place that the cursor denotes. -/
theorem Builder.after_place (signature : Signature) (ops : List Operation) :
    let b := (start signature).after ops
    let old := List.filter (Instr.isOlder b.body.slots.length)
    (∀ row : List Operation, (∀ op ∈ row, op.turns = false) → b.Steady row →
      (b.after row).cursor.block = b.cursor.block ∧
      old ((b.after row).body.code b.cursor.block) = b.before ++ b.placed row ++ b.behind ∧
      old (b.after row).before = b.before ++ b.placed row ∧
      old (b.after row).behind = b.behind) ∧
    ∀ name ty, let b' := (Operation.alloca name ty).apply b
      (b'.cursor.block = b.cursor.block ∧ old b'.before = b.before ∧ old b'.behind = b.behind) ↔
        b.overtaken = false := by
  intro b old
  have hb : b.Anchored := (anchored_start signature).after ops
  obtain ⟨hbefore, hbehind⟩ := filter_sides hb
  constructor
  · intro row hturns hsteady
    obtain ⟨hblock, hbefore', hbehind'⟩ := after_sides hb hturns hsteady (Nat.le_refl _)
    rw [hbefore] at hbefore'
    rw [hbehind] at hbehind'
    refine ⟨hblock, ?_, hbefore', hbehind'⟩
    rw [← hblock, ← before_append_behind, ← hbefore', ← hbehind']
    exact List.filter_append ..
  · intro name ty
    have h := (Operation.alloca_sinks hb.orderly name ty).2
    constructor
    · intro hsame
      by_contra hovertaken
      have hlt := h.length_before_lt hb (by simpa using hovertaken)
      exact absurd (congrArg List.length hsame.2.1) (Nat.ne_of_lt hlt)
    · intro hsteady
      obtain ⟨hbefore', hbehind'⟩ := h.sides hb hsteady (Nat.le_refl _)
      exact ⟨congrArg Cursor.block h.cursor, hbefore'.trans hbefore, hbehind'.trans hbehind⟩

/-- An allocation between two instructions turns their order round: the cursor stands after the only
instruction of the entry block, the allocation is sunk before that, and the next instruction comes
to stand where the first one was. -/
theorem Builder.order_overtaken :
    let b := (start ⟨"main", [], .i32, false⟩).after
      [.gotoStart ⟨0⟩, .arith .add (.const (.int 1)) (.const (.int 1))]
    let row := [.alloca "x" .i32, .arith .add (.temp ⟨0⟩) (.const (.int 1))]
    b.cursor = .after ⟨0⟩ 0 ∧
    b.before = [.arith ⟨0⟩ .add (.const (.int 1)) (.const (.int 1))] ∧ b.behind = [] ∧
    (∀ op ∈ row, op.turns = false) ∧
    b.placed row = [.arith ⟨1⟩ .add (.temp ⟨0⟩) (.const (.int 1))] ∧
    ((b.after row).body.code ⟨0⟩).filter (Instr.isOlder b.body.slots.length) =
      [.arith ⟨1⟩ .add (.temp ⟨0⟩) (.const (.int 1)),
        .arith ⟨0⟩ .add (.const (.int 1)) (.const (.int 1))] := by
  decide

/-- A row with an allocation in it, put in at the start of an entry block that has two. -/
theorem Builder.after_place_row :
    let b := (start ⟨"main", [], .i32, false⟩).after
      [.alloca "x" .i32, .alloca "y" .i32, .store (.slot ⟨0⟩) (.const (.int 1)), .gotoStart ⟨0⟩]
    let row := [.load .i32 (.slot ⟨0⟩), .alloca "z" .i32, .store (.slot ⟨1⟩) (.temp ⟨0⟩)]
    (∀ op ∈ row, op.turns = false) ∧ b.Steady row ∧
    ((b.after row).body.code ⟨0⟩).filter (Instr.isOlder b.body.slots.length) =
      b.before ++ b.placed row ++ b.behind := by
  intro b row
  have hturns : ∀ op ∈ row, op.turns = false := by decide
  have hsteady : b.Steady row := by decide
  exact ⟨hturns, hsteady, ((after_place _ _).1 row hturns hsteady).2.1⟩

end SexprSsa
