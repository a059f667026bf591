/-
SexprSsa.Proofs.Allocations — when the allocations stand at the top of the entry block.

The next allocation is sunk by count: it comes after as many instructions of the
entry block as there are slots. If these are the allocations of the slots, the
new one follows them; and they are, as long as nothing else is put in above the
last of them. Once something was, it is counted as an allocation ever after, so
the order never comes right again.

Main statement: `allocations_onTop_iff`. The entry block starts with the
allocations of the slots, in order, if and only if no operation has put another
instruction there with the cursor above the last allocation.
-/
import SexprSsa.Proofs.Cursors

namespace SexprSsa

namespace Body

/-- The entry block starts with the allocations of the slots, in order. -/
def OnTop (body : Body) : Prop :=
  body.slots.map StackSlot.allocation <+: body.code body.entry

instance (body : Body) : Decidable body.OnTop :=
  inferInstanceAs (Decidable (_ <+: _))

/-- Something else stands where the allocations belong. -/
def Mixed (body : Body) : Prop :=
  ∃ i ∈ (body.code body.entry).take body.slots.length, i.isAlloca = false

theorem OnTop.not_mixed {body : Body} (h : body.OnTop) : ¬ body.Mixed := by
  intro hmixed
  obtain ⟨i, hi, hplain⟩ := hmixed
  have htake := List.prefix_iff_eq_take.1 h
  rw [List.length_map] at htake
  rw [← htake] at hi
  obtain ⟨s, -, rfl⟩ := List.mem_map.1 hi
  cases hplain

end Body

/-- An operation puts something else in, with the cursor above the last allocation. -/
def Operation.Disturbs (op : Operation) (b : Builder) : Prop :=
  b.cursor.block = b.body.entry ∧ b.before.length < b.body.slots.length ∧
    ∃ e ∈ op.written b, e.2.isAlloca = false

instance (op : Operation) (b : Builder) : Decidable (op.Disturbs b) :=
  inferInstanceAs (Decidable (_ ∧ _ ∧ _))

namespace Builder

/-- None of the operations puts something else in above the last allocation. -/
def Undisturbed (b : Builder) : List Operation → Prop
  | [] => True
  | op :: ops => ¬ op.Disturbs b ∧ (op.apply b).Undisturbed ops

instance decidableUndisturbed :
    (b : Builder) → (ops : List Operation) → Decidable (b.Undisturbed ops)
  | _, [] => inferInstanceAs (Decidable True)
  | b, op :: ops =>
    have := decidableUndisturbed (op.apply b) ops
    inferInstanceAs (Decidable (¬ op.Disturbs b ∧ _))

variable {b b' : Builder}

/-! ## One step -/

/-- What is put in behind the allocations leaves them on top. -/
theorem Inserts.onTop {i : Instr} (h : b.Inserts i b') (htop : b.body.OnTop)
    (hbelow : b.cursor.block = b.body.entry → b.body.slots.length ≤ b.before.length) :
    b'.body.OnTop := by
  unfold Body.OnTop at htop ⊢
  rw [h.slots, h.entry]
  by_cases hq : b.cursor.block = b.body.entry
  · have hbefore : b.body.slots.map StackSlot.allocation <+: b.before := by
      rw [← hq, ← b.before_append_behind] at htop
      refine List.prefix_of_prefix_length_le htop (List.prefix_append ..) ?_
      simpa using hbelow hq
    rw [← hq, h.code_cursor]
    exact hbefore.trans (List.prefix_append ..)
  · rwa [h.code, if_neg (Ne.symm hq)]

/-- What is put in above them, or among them, is mixed with them. -/
theorem Inserts.mixed_of_above {i : Instr} (h : b.Inserts i b')
    (hq : b.cursor.block = b.body.entry) (habove : b.before.length < b.body.slots.length) :
    b'.body.Mixed := by
  refine ⟨i, ?_, h.plain⟩
  rw [h.slots, h.entry, ← hq, h.code_cursor, List.append_cons, List.take_append]
  refine List.mem_append_left _ ?_
  rw [List.take_of_length_le (by simpa [Nat.add_one_le_iff] using habove)]
  simp

/-- What is mixed with the allocations stays there or makes room for something else. -/
theorem Inserts.mixed {i : Instr} (h : b.Inserts i b') (hmixed : b.body.Mixed) :
    b'.body.Mixed := by
  by_cases hq : b.cursor.block = b.body.entry
  · by_cases habove : b.before.length < b.body.slots.length
    · exact h.mixed_of_above hq habove
    · have hle : b.body.slots.length ≤ b.before.length := Nat.le_of_not_lt habove
      obtain ⟨j, hj, hplain⟩ := hmixed
      refine ⟨j, ?_, hplain⟩
      rw [← hq, ← b.before_append_behind, List.take_append_of_le_length hle] at hj
      rwa [h.slots, h.entry, ← hq, h.code_cursor, List.take_append_of_le_length hle]
  · obtain ⟨j, hj, hplain⟩ := hmixed
    refine ⟨j, ?_, hplain⟩
    rwa [h.slots, h.entry, h.code, if_neg (Ne.symm hq)]

/-- An allocation that is sunk comes right after as many instructions as there were slots. -/
theorem Sinks.code_eq_append {s : StackSlot} (h : b.Sinks s b') (hb : b.Anchored) :
    b'.body.code b'.body.entry = (b.body.code b.body.entry).take b.body.slots.length ++
      s.allocation :: (b.body.code b.body.entry).drop b.body.slots.length := by
  rw [h.entry, h.code_entry hb, insertIdx_eq_append _ hb.room, hb.sunk]

theorem Sinks.onTop {s : StackSlot} (h : b.Sinks s b') (hb : b.Anchored) (htop : b.body.OnTop) :
    b'.body.OnTop := by
  have htake := List.prefix_iff_eq_take.1 htop
  rw [List.length_map] at htake
  unfold Body.OnTop
  rw [h.slots, h.code_eq_append hb, ← htake, List.map_append]
  exact (List.prefix_append_right_inj _).2 ⟨_, rfl⟩

theorem Sinks.mixed {s : StackSlot} (h : b.Sinks s b') (hb : b.Anchored)
    (hmixed : b.body.Mixed) : b'.body.Mixed := by
  obtain ⟨i, hi, hplain⟩ := hmixed
  refine ⟨i, ?_, hplain⟩
  rw [h.slots, h.code_eq_append hb, List.append_cons, List.take_append]
  refine List.mem_append_left _ ?_
  rw [List.take_of_length_le]
  · simp [hi]
  · simp only [List.length_append, List.length_take, List.length_singleton]
    omega

theorem Rests.onTop_iff (h : b.Rests b') : b'.body.OnTop ↔ b.body.OnTop := by
  unfold Body.OnTop
  rw [h.slots, h.entry, h.code]

theorem Rests.mixed_iff (h : b.Rests b') : b'.body.Mixed ↔ b.body.Mixed := by
  unfold Body.Mixed
  rw [h.slots, h.entry, h.code]

/-- An operation that does not disturb the allocations leaves them on top. -/
theorem onTop_apply (hb : b.Anchored) (htop : b.body.OnTop) {op : Operation}
    (h : ¬ op.Disturbs b) : (op.apply b).body.OnTop := by
  cases op.acts hb.orderly with
  | inserts i hi hwritten =>
    refine hi.onTop htop ?_
    intro hq
    by_contra habove
    refine h ⟨hq, Nat.lt_of_not_le habove, (b.cursor.block, i), ?_, hi.plain⟩
    simp [hwritten]
  | sinks s hs _ _ => exact hs.onTop hb htop
  | rests hr _ _ => exact hr.onTop_iff.2 htop
  | turns hr _ _ _ => exact hr.onTop_iff.2 htop

/-- One that does leaves something among them. -/
theorem mixed_of_disturbs (hb : b.Anchored) {op : Operation} (h : op.Disturbs b) :
    (op.apply b).body.Mixed := by
  obtain ⟨hq, habove, e, he, hplain⟩ := h
  cases op.acts hb.orderly with
  | inserts i hi _ => exact hi.mixed_of_above hq habove
  | sinks s _ _ hwritten =>
    obtain rfl : e = (b.body.entry, s.allocation) := by simpa [hwritten] using he
    cases hplain
  | rests _ _ hwritten => simp [hwritten] at he
  | turns _ _ _ hwritten => simp [hwritten] at he

/-- And no operation takes it away from there. -/
theorem mixed_apply (hb : b.Anchored) (h : b.body.Mixed) (op : Operation) :
    (op.apply b).body.Mixed := by
  cases op.acts hb.orderly with
  | inserts i hi _ => exact hi.mixed h
  | sinks s hs _ _ => exact hs.mixed hb h
  | rests hr _ _ => exact hr.mixed_iff.2 h
  | turns hr _ _ _ => exact hr.mixed_iff.2 h

/-! ## Many steps -/

theorem mixed_after (hb : b.Anchored) (h : b.body.Mixed) (ops : List Operation) :
    (b.after ops).body.Mixed := by
  induction ops generalizing b with
  | nil => exact h
  | cons op ops ih => exact ih (hb.apply op) (mixed_apply hb h op)

theorem onTop_after_iff (hb : b.Anchored) (htop : b.body.OnTop) (ops : List Operation) :
    (b.after ops).body.OnTop ↔ b.Undisturbed ops := by
  induction ops generalizing b with
  | nil => exact iff_of_true htop trivial
  | cons op ops ih =>
    change ((op.apply b).after ops).body.OnTop ↔ ¬ op.Disturbs b ∧ (op.apply b).Undisturbed ops
    by_cases h : op.Disturbs b
    · have hmixed := mixed_after (hb.apply op) (mixed_of_disturbs hb h) ops
      constructor
      · intro hafter
        exact absurd hmixed hafter.not_mixed
      · intro hundisturbed
        exact absurd h hundisturbed.1
    · rw [ih (hb.apply op) (onTop_apply hb htop h)]
      simp [h]

/-- **When the allocations stand at the top of the entry block.** Whatever is done while a function
is built, the slots are numbered in order; and the entry block starts with their allocations, in
this order and with nothing before or between them, if and only if nothing else was ever put into
it with the cursor above the last allocation. -/
theorem allocations_onTop_iff (signature : Signature) (ops : List Operation) :
    let body := ((start signature).after ops).body
    body.slots.map StackSlot.id = (List.range body.slots.length).map SlotId.mk ∧
    (body.OnTop ↔ (start signature).Undisturbed ops) := by
  constructor
  · obtain ⟨new, hslots, hids, -⟩ :=
      (adds_after (b := start signature) Body.Orderly.initial ops).slots
    obtain rfl : ((start signature).after ops).body.slots = new := hslots
    rw [hids, List.range_eq_range']
    rfl
  · exact onTop_after_iff (anchored_start signature) (List.nil_prefix) ops

/-- A store that is put in at the start of the entry block stays above the allocations, and the one
that is sunk next comes between them. -/
theorem not_onTop_after_store :
    let ops : List Operation := [.alloca "x" .i32, .gotoStart ⟨0⟩,
      .store (.slot ⟨0⟩) (.const (.int 1)), .alloca "y" .i32]
    let body := ((start ⟨"main", [], .i32, false⟩).after ops).body
    body.slots.map StackSlot.allocation = [.alloca ⟨0⟩ .i32 "x", .alloca ⟨1⟩ .i32 "y"] ∧
    body.code body.entry =
      [.store (.slot ⟨0⟩) (.const (.int 1)), .alloca ⟨1⟩ .i32 "y", .alloca ⟨0⟩ .i32 "x"] ∧
    ¬ body.OnTop := by
  decide

end Builder

end SexprSsa
