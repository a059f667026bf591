/-
SexprSsa.Proofs.Relocation — what moving a block does to a layout.

A block that is moved is taken out of the layout first, and what came behind it
closes up; only then the place of the anchor is looked for. So an anchor that
stood behind the block is one place further to the front by then
(`idxOf_erase`), and the place right behind it is the right one in any case:
whether the block comes from the front or from the back, from an end, or from
next to its anchor.

Main statement: `moveAfter_moves`. In a layout without repetitions a move either
does nothing, or takes the block out and puts it right behind the anchor, or is
refused; it never does anything else.
-/
import SexprSsa.Proofs.BlockOrder
import SexprSsa.Proofs.Construction

namespace SexprSsa

/-! ## Places in a layout -/

section
variable {layout : List BlockId} {block anchor : BlockId}

/-- Putting a block behind an anchor is an insertion at the place behind it. -/
theorem insertAfter_eq_insertIdx (h : anchor ∈ layout) :
    insertAfter anchor block layout = layout.insertIdx (layout.idxOf anchor + 1) block := by
  induction layout with
  | nil => cases h
  | cons q rest ih =>
    by_cases hq : q = anchor
    · subst hq
      simp [insertAfter]
    · have hrest : anchor ∈ rest := (List.mem_cons.1 h).resolve_left (Ne.symm hq)
      rw [insertAfter, if_neg hq, ih hrest, List.idxOf_cons_ne _ hq, List.insertIdx_succ_cons]

/-- What stands behind a block that is taken out moves up by one place. -/
theorem idxOf_erase (hne : block ≠ anchor) (hblock : block ∈ layout) (hanchor : anchor ∈ layout) :
    (layout.erase block).idxOf anchor =
      if layout.idxOf block < layout.idxOf anchor then layout.idxOf anchor - 1
      else layout.idxOf anchor := by
  induction layout with
  | nil => cases hblock
  | cons q rest ih =>
    by_cases hq : q = block
    · subst hq
      rw [List.erase_cons_head, List.idxOf_cons_self, List.idxOf_cons_ne _ hne]
      simp
    · have hblock' : block ∈ rest := (List.mem_cons.1 hblock).resolve_left (Ne.symm hq)
      rw [List.erase_cons_tail (by simpa using hq), List.idxOf_cons_ne _ hq]
      by_cases hqa : q = anchor
      · subst hqa
        simp
      · have hanchor' : anchor ∈ rest := (List.mem_cons.1 hanchor).resolve_left (Ne.symm hqa)
        rw [List.idxOf_cons_ne _ hqa, List.idxOf_cons_ne _ hqa, ih hblock' hanchor']
        split <;> split <;> omega

/-- An order of two blocks is not affected by blocks that are left out. -/
theorem pair_sublist_filter {keep : BlockId → Bool} {p q : BlockId} (hp : keep p = true)
    (hq : keep q = true) : [p, q].Sublist (layout.filter keep) ↔ [p, q].Sublist layout := by
  constructor
  · intro h
    exact h.trans List.filter_sublist
  · intro h
    have hfilter := h.filter keep
    rwa [List.filter_cons_of_pos hp, List.filter_cons_of_pos hq, List.filter_nil] at hfilter

end

/-! ## Moves -/

/-- The layout `moved` is `layout` after a block has been moved behind an anchor. -/
structure Relocated (layout : List BlockId) (block anchor : BlockId) (moved : List BlockId) :
    Prop where
  /-- The block was taken out and put back right behind the anchor. -/
  split : ∃ front back, layout.erase block = front ++ anchor :: back ∧
    moved = front ++ anchor :: block :: back
  /-- The place behind the anchor is counted after the block has been taken out. -/
  place : moved = (layout.eraseIdx (layout.idxOf block)).insertIdx
    ((if layout.idxOf block < layout.idxOf anchor then layout.idxOf anchor - 1
      else layout.idxOf anchor) + 1) block
  perm : moved.Perm layout
  /-- All other blocks keep their order. -/
  order : ∀ p q, p ≠ block → q ≠ block → ([p, q].Sublist moved ↔ [p, q].Sublist layout)
  /-- The same move changes nothing more. -/
  again : relocate moved block anchor = .ok moved

section
variable {layout moved : List BlockId} {block anchor : BlockId}

theorem relocate_self (layout : List BlockId) (block : BlockId) :
    relocate layout block block = .ok layout := if_pos rfl

theorem relocate_of_mem (hne : block ≠ anchor) (hblock : block ∈ layout)
    (hanchor : anchor ∈ layout) :
    relocate layout block anchor = .ok (insertAfter anchor block (layout.erase block)) := by
  unfold relocate
  rw [if_neg hne, if_neg (not_not_intro hblock), if_neg (not_not_intro hanchor)]

/-- The block to be moved is looked for first. -/
theorem relocate_of_not_mem (hne : block ≠ anchor) (h : block ∉ layout ∨ anchor ∉ layout) :
    relocate layout block anchor =
      .error (.notLaidOut (if block ∈ layout then anchor else block)) := by
  unfold relocate
  rw [if_neg hne]
  by_cases hblock : block ∈ layout
  · have hanchor : anchor ∉ layout := h.resolve_left (not_not_intro hblock)
    rw [if_neg (not_not_intro hblock), if_pos hanchor, if_pos hblock]
  · rw [if_pos hblock, if_neg hblock]

/-- A block that stands behind its anchor can be moved there without a change. -/
theorem relocate_behind (hne : block ≠ anchor) {front back : List BlockId}
    (hnodup : (front ++ anchor :: block :: back).Nodup) :
    relocate (front ++ anchor :: block :: back) block anchor =
      .ok (front ++ anchor :: block :: back) := by
  have hfront : anchor ∉ front ∧ block ∉ front := by
    have hapart := (List.nodup_append.1 hnodup).2.2
    exact ⟨fun hmem => hapart _ hmem _ (by simp) rfl, fun hmem => hapart _ hmem _ (by simp) rfl⟩
  have herase : (front ++ anchor :: block :: back).erase block = front ++ anchor :: back := by
    rw [List.erase_append_right _ hfront.2, List.erase_cons_tail (by simpa using Ne.symm hne),
      List.erase_cons_head]
  rw [relocate_of_mem hne (by simp) (by simp), herase, insertAfter_append block hfront.1]

/-- A move that is made in a layout without repetitions. -/
theorem relocated_of_mem (hnodup : layout.Nodup) (hne : block ≠ anchor) (hblock : block ∈ layout)
    (hanchor : anchor ∈ layout) :
    Relocated layout block anchor (insertAfter anchor block (layout.erase block)) := by
  have hanchor' : anchor ∈ layout.erase block := (List.mem_erase_of_ne (Ne.symm hne)).2 hanchor
  have hperm := relocate_perm (relocate_of_mem hne hblock hanchor)
  obtain ⟨front, back, hsplit, hfront⟩ := List.eq_append_cons_of_mem hanchor'
  have hmoved : insertAfter anchor block (layout.erase block) =
      front ++ anchor :: block :: back := by
    rw [hsplit, insertAfter_append block hfront]
  -- without the block, the layout is the same before and after
  have hothers : (insertAfter anchor block (layout.erase block)).filter (· != block) =
      layout.filter (· != block) := by
    rw [hmoved, List.filter_append, List.filter_cons_of_pos (by simpa using Ne.symm hne),
      List.filter_cons_of_neg (by simp), ← List.filter_cons_of_pos (by simpa using Ne.symm hne),
      ← List.filter_append, ← hsplit, hnodup.erase_eq_filter, List.filter_filter]
    simp
  refine ⟨⟨front, back, hsplit, hmoved⟩, ?_, hperm, ?_, ?_⟩
  · rw [insertAfter_eq_insertIdx hanchor', idxOf_erase hne hblock hanchor,
      List.erase_eq_eraseIdx_of_idxOf rfl]
  · intro p q hp hq
    have hpair (l : List BlockId) : [p, q].Sublist (l.filter (· != block)) ↔ [p, q].Sublist l :=
      pair_sublist_filter (by simpa using hp) (by simpa using hq)
    rw [← hpair, hothers, hpair]
  · rw [hmoved]
    exact relocate_behind hne (hmoved ▸ hperm.nodup_iff.2 hnodup)

end

namespace Build

theorem moveAfter_of_ok {b : Builder} {block anchor : BlockId} {layout : List BlockId}
    (h : relocate b.body.layout block anchor = .ok layout) :
    moveAfter block anchor b = (.ok (), { b with body := { b.body with layout } }) := by
  refine update_of_ok ?_
  rw [Body.moveAfter, h]
  rfl

theorem moveAfter_of_error {b : Builder} {block anchor : BlockId} {e : BuildError}
    (h : relocate b.body.layout block anchor = .error e) :
    moveAfter block anchor b = (.error e, b) := by
  refine update_of_error ?_
  rw [Body.moveAfter, h]
  rfl

end Build

/-- **Laying a block out behind another is exactly a move.** In a layout without repetitions, a
block that is to follow itself stays where it is; a block that is to follow another one is taken out
and put back right behind it, if both are laid out; and if one of them is not, the move is refused.
Of the function nothing but the layout is touched, and by a move that is refused not even that. -/
theorem moveAfter_moves (b : Builder) (hnodup : b.body.layout.Nodup) (block anchor : BlockId) :
    (block = anchor → Build.moveAfter block anchor b = (.ok (), b)) ∧
    (block ≠ anchor → block ∈ b.body.layout → anchor ∈ b.body.layout →
      ∃ layout, Relocated b.body.layout block anchor layout ∧
        Build.moveAfter block anchor b = (.ok (), { b with body := { b.body with layout } })) ∧
    (block ≠ anchor → block ∉ b.body.layout ∨ anchor ∉ b.body.layout →
      ∃ missing, (missing = block ∨ missing = anchor) ∧ missing ∉ b.body.layout ∧
        Build.moveAfter block anchor b = (.error (.notLaidOut missing), b)) := by
  refine ⟨?_, ?_, ?_⟩
  · intro heq
    subst heq
    exact Build.moveAfter_of_ok (relocate_self ..)
  · intro hne hblock hanchor
    exact ⟨_, relocated_of_mem hnodup hne hblock hanchor,
      Build.moveAfter_of_ok (relocate_of_mem hne hblock hanchor)⟩
  · intro hne hmissing
    have hrefused := Build.moveAfter_of_error (relocate_of_not_mem hne hmissing)
    by_cases hblock : block ∈ b.body.layout
    · rw [if_pos hblock] at hrefused
      exact ⟨anchor, .inr rfl, hmissing.resolve_left (not_not_intro hblock), hrefused⟩
    · rw [if_neg hblock] at hrefused
      exact ⟨block, .inl rfl, hblock, hrefused⟩

/-- A function with four blocks, laid out as they were opened. -/
def fourBlocks : Builder :=
  (Builder.start ⟨"main", [], .i32, false⟩).after
    [.createBlock "then", .createBlock "else", .createBlock "ifend"]

/-- A block stays behind itself, the last block is moved behind the first, the first behind the
last, and no block is moved behind one that does not exist. -/
theorem moveAfter_moves_fourBlocks :
    Build.moveAfter ⟨2⟩ ⟨2⟩ fourBlocks = (.ok (), fourBlocks) ∧
    Relocated [⟨0⟩, ⟨1⟩, ⟨2⟩, ⟨3⟩] ⟨3⟩ ⟨0⟩ [⟨0⟩, ⟨3⟩, ⟨1⟩, ⟨2⟩] ∧
    Relocated [⟨0⟩, ⟨1⟩, ⟨2⟩, ⟨3⟩] ⟨0⟩ ⟨3⟩ [⟨1⟩, ⟨2⟩, ⟨3⟩, ⟨0⟩] ∧
    Build.moveAfter ⟨2⟩ ⟨9⟩ fourBlocks = (.error (.notLaidOut ⟨9⟩), fourBlocks) := by
  have hlayout : fourBlocks.body.layout = [⟨0⟩, ⟨1⟩, ⟨2⟩, ⟨3⟩] := by decide +kernel
  have hmoves := moveAfter_moves fourBlocks (hlayout ▸ by decide)
  rw [hlayout] at hmoves
  refine ⟨(hmoves ⟨2⟩ ⟨2⟩).1 rfl, ?_, ?_, ?_⟩
  · obtain ⟨layout, hrelocated, -⟩ := (hmoves ⟨3⟩ ⟨0⟩).2.1 (by decide) (by decide) (by decide)
    obtain rfl : layout = [⟨0⟩, ⟨3⟩, ⟨1⟩, ⟨2⟩] := hrelocated.place
    exact hrelocated
  · obtain ⟨layout, hrelocated, -⟩ := (hmoves ⟨0⟩ ⟨3⟩).2.1 (by decide) (by decide) (by decide)
    obtain rfl : layout = [⟨1⟩, ⟨2⟩, ⟨3⟩, ⟨0⟩] := hrelocated.place
    exact hrelocated
  · obtain ⟨missing, rfl | rfl, hnot, hrefused⟩ := (hmoves ⟨2⟩ ⟨9⟩).2.2 (by decide)
      (.inr (by decide))
    · exact absurd (by decide) hnot
    · exact hrefused

end SexprSsa
