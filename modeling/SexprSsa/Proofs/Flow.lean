/-
SexprSsa.Proofs.Flow — function bodies as flow graphs.

A flow graph gives every block its instructions and its exit, and nothing
else: no layout, no slots, no counters. A number without a block has no
instructions and no exit, so the two maps are total.

Two operations build every graph, `append` and `close`. What holds of a graph
is carried across them by one remark: a path to a block whose incoming edges
have not changed is the same path as before (`Keeps.path`), so a value
that every path computes is still computed by every path.

Main statements: `Ssa.append` and `Ssa.close`, the two ways in which a graph in
static single assignment form grows.
-/
import SexprSsa.Ir.Builder
import Mathlib.Data.List.Nodup

namespace SexprSsa

/-- The values that a row of instructions computes. -/
def results (code : List Instr) : List ValueId := code.filterMap Instr.result?

@[simp] theorem results_nil : results [] = [] := rfl

@[simp] theorem results_append (code more : List Instr) :
    results (code ++ more) = results code ++ results more :=
  List.filterMap_append

theorem mem_results {code : List Instr} {v : ValueId} :
    v ∈ results code ↔ ∃ i ∈ code, i.result? = some v := by
  simp [results]

theorem results_sublist {code more : List Instr} (h : code <+: more) {v : ValueId}
    (hv : v ∈ results code) : v ∈ results more := by
  obtain ⟨rest, rfl⟩ := h
  simp [hv]

/-- The operands that a terminator reads. -/
def Terminator.operands : Terminator → List Operand
  | .branch condition _ _ => [condition]
  | .ret (some value) => [value]
  | .ret none | .jump _ | .missing => []

/-! ## Graphs and paths -/

/-- A function body without its layout: what each block runs and how it ends. -/
@[ext] structure Flow where
  entry : BlockId
  code : BlockId → List Instr
  exit : BlockId → Terminator

namespace Flow

/-- Control may go from the end of `p` to the start of `q`. -/
def Edge (g : Flow) (p q : BlockId) : Prop := q ∈ (g.exit p).successors

/-- Control can come to the start of `q` by running the blocks of `passed`, of which the head
is the last to run. The outcomes of branches are left open. -/
inductive Path (g : Flow) : List BlockId → BlockId → Prop
  | start : Path g [] g.entry
  | step {passed : List BlockId} {p q : BlockId} :
      Path g passed p → g.Edge p q → Path g (p :: passed) q

/-- The values that the blocks of a path compute. -/
def computed (g : Flow) (passed : List BlockId) : List ValueId :=
  passed.flatMap fun p => results (g.code p)

/-- Every path to the start of `q` computes `v`. -/
def Available (g : Flow) (q : BlockId) (v : ValueId) : Prop :=
  ∀ passed, g.Path passed q → v ∈ g.computed passed

/-- Every path to the end of `q` computes `v`. -/
def Settled (g : Flow) (q : BlockId) (v : ValueId) : Prop :=
  v ∈ results (g.code q) ∨ g.Available q v

/-- Other than at the entry, a value is available if it is settled in every predecessor. -/
theorem available_of_edges {g : Flow} {q : BlockId} {v : ValueId} (hq : q ≠ g.entry)
    (h : ∀ p, g.Edge p q → g.Settled p v) : g.Available q v := by
  intro passed hpath
  cases hpath with
  | start => exact absurd rfl hq
  | @step earlier p _ hp hedge =>
    simp only [computed, List.flatMap_cons, List.mem_append]
    rcases h p hedge with hv | hv
    · exact .inl hv
    · exact .inr (hv earlier hp)

/-- `g'` has grown out of `g` away from the old blocks: their incoming edges are the same, they
come from old blocks, and old blocks have lost no instruction. -/
structure Keeps (g g' : Flow) (old : BlockId → Prop) : Prop where
  entry : g'.entry = g.entry
  edge : ∀ {p q}, old q → (g'.Edge p q ↔ g.Edge p q)
  source : ∀ {p q}, old q → g.Edge p q → old p
  code : ∀ {p}, old p → g.code p <+: g'.code p

namespace Keeps

variable {g g' : Flow} {old : BlockId → Prop}

/-- A path to an old block is the same path as before, and all of its blocks are old. -/
theorem path (h : g.Keeps g' old) {passed : List BlockId} {q : BlockId}
    (hpath : g'.Path passed q) (hq : old q) : g.Path passed q ∧ ∀ p ∈ passed, old p := by
  induction hpath with
  | start =>
    rw [h.entry]
    exact ⟨.start, by simp⟩
  | @step passed p q _ he ih =>
    have hg : g.Edge p q := (h.edge hq).1 he
    have hp : old p := h.source hq hg
    obtain ⟨hold, hall⟩ := ih hp
    refine ⟨hold.step hg, ?_⟩
    intro r hr
    rcases List.mem_cons.1 hr with rfl | hr
    · exact hp
    · exact hall r hr

theorem available (h : g.Keeps g' old) {q : BlockId} {v : ValueId} (hq : old q)
    (hv : g.Available q v) : g'.Available q v := by
  intro passed hpath
  obtain ⟨hold, hall⟩ := h.path hpath hq
  obtain ⟨p, hp, hv⟩ := List.mem_flatMap.1 (hv passed hold)
  exact List.mem_flatMap.2 ⟨p, hp, results_sublist (h.code (hall p hp)) hv⟩

theorem settled (h : g.Keeps g' old) {q : BlockId} {v : ValueId} (hq : old q)
    (hv : g.Settled q v) : g'.Settled q v :=
  hv.imp (results_sublist (h.code hq)) (h.available hq)

end Keeps

/-! ## The two ways a graph grows -/

/-- Puts an instruction at the end of a block. -/
def append (g : Flow) (q : BlockId) (i : Instr) : Flow :=
  { g with code := fun p => if p = q then g.code p ++ [i] else g.code p }

/-- Gives a block its exit. -/
def close (g : Flow) (q : BlockId) (t : Terminator) : Flow :=
  { g with exit := fun p => if p = q then t else g.exit p }

section
variable (g : Flow) (q : BlockId) (i : Instr) (t : Terminator)

@[simp] theorem code_close : (g.close q t).code = g.code := rfl

@[simp] theorem code_append_self : (g.append q i).code q = g.code q ++ [i] := by
  simp [append]

theorem code_append_of_ne {p : BlockId} (h : p ≠ q) : (g.append q i).code p = g.code p := by
  simp [append, h]

@[simp] theorem exit_close_self : (g.close q t).exit q = t := by
  simp [close]

theorem exit_close_of_ne {p : BlockId} (h : p ≠ q) : (g.close q t).exit p = g.exit p := by
  simp [close, h]

@[simp] theorem edge_append {p r : BlockId} : (g.append q i).Edge p r ↔ g.Edge p r := Iff.rfl

theorem code_prefix_append (p : BlockId) : g.code p <+: (g.append q i).code p := by
  by_cases h : p = q
  · subst h
    simp
  · simp [code_append_of_ne g q i h]

end

/-- The edges of a graph after a block is closed. -/
theorem edge_close {g : Flow} {q : BlockId} {t : Terminator} {p r : BlockId} :
    (g.close q t).Edge p r ↔ p = q ∧ r ∈ t.successors ∨ p ≠ q ∧ g.Edge p r := by
  unfold Edge
  by_cases h : p = q
  · subst h
    simp
  · rw [exit_close_of_ne g q t h]
    simp [h]

/-- An exit for an open block adds its edges to those that are there. -/
theorem edge_close_open {g : Flow} {q : BlockId} (h : g.exit q = .missing) {t : Terminator}
    {p r : BlockId} : (g.close q t).Edge p r ↔ g.Edge p r ∨ p = q ∧ r ∈ t.successors := by
  rw [edge_close]
  constructor
  · rintro (hnew | ⟨-, he⟩)
    · exact .inr hnew
    · exact .inl he
  · rintro (he | hnew)
    · refine .inr ⟨?_, he⟩
      rintro rfl
      simp [Edge, h, Terminator.successors] at he
    · exact .inl hnew

theorem keeps_append (g : Flow) (q : BlockId) (i : Instr) :
    g.Keeps (g.append q i) fun _ => True where
  entry := rfl
  edge _ := Iff.rfl
  source _ _ := trivial
  code _ := g.code_prefix_append q i _

/-- Closing an open block leaves alone every block that it does not exit to. -/
theorem keeps_close (g : Flow) {q : BlockId} {t : Terminator} (hopen : g.exit q = .missing)
    (hfresh : ∀ r ∈ t.successors, g.exit r = .missing) :
    g.Keeps (g.close q t) fun r => r ∉ t.successors where
  entry := rfl
  edge {p r} hr := by
    rw [edge_close]
    constructor
    · rintro (⟨-, hr'⟩ | ⟨-, he⟩)
      · exact absurd hr' hr
      · exact he
    · intro he
      refine .inr ⟨?_, he⟩
      rintro rfl
      simp [Edge, hopen, Terminator.successors] at he
  source {p r} _ he hp := by
    simp [Edge, hfresh p hp, Terminator.successors] at he
  code _ := List.prefix_rfl

/-- A split of a row with a new last element splits at that element or splits the old row. -/
theorem split_of_append_singleton {α : Type} {row pre post : List α} {x y : α}
    (h : row ++ [y] = pre ++ x :: post) :
    (pre = row ∧ x = y ∧ post = []) ∨ ∃ less, post = less ++ [y] ∧ row = pre ++ x :: less := by
  rcases List.eq_nil_or_concat' post with rfl | ⟨less, z, rfl⟩
  · obtain ⟨h₁, h₂⟩ := List.append_inj' h rfl
    simp only [List.cons.injEq, and_true] at h₂
    exact .inl ⟨h₁.symm, h₂.symm, rfl⟩
  · rw [← List.cons_append, ← List.append_assoc] at h
    obtain ⟨h₁, h₂⟩ := List.append_inj' h rfl
    simp only [List.cons.injEq, and_true] at h₂
    exact .inr ⟨less, by simp [h₂], h₁⟩

/-! ## Static single assignment

The conditions are local: they speak of a block, its instructions and its edges. That they
bound every path is in the word `Available`. -/

/-- An instruction may stand in block `q` after the instructions `pre`. -/
structure Fits (g : Flow) (q : BlockId) (pre : List Instr) (i : Instr) : Prop where
  /-- What it reads has been computed, unless it is a phi. -/
  uses : i.isPhi = false → ∀ v, .temp v ∈ i.operands → v ∈ results pre ∨ g.Available q v
  /-- A phi comes before all other instructions, and not in the entry. -/
  place : i.isPhi = true → q ≠ g.entry ∧ ∀ j ∈ pre, j.isPhi = true
  /-- A phi names exactly the predecessors. -/
  sources : ∀ r ty incoming, i = .phi r ty incoming →
    ∀ p, p ∈ incoming.map Prod.snd ↔ g.Edge p q
  /-- What a phi reads has been computed by the end of the predecessor it is read for. -/
  incoming : ∀ r ty incoming, i = .phi r ty incoming →
    ∀ v p, (.temp v, p) ∈ incoming → g.Settled p v

/-- A graph in static single assignment form. -/
structure Ssa (g : Flow) : Prop where
  fits : ∀ {q pre i post}, g.code q = pre ++ i :: post → g.Fits q pre i
  exits : ∀ q v, .temp v ∈ (g.exit q).operands → g.Settled q v
  nodup : ∀ q, (results (g.code q)).Nodup
  apart : ∀ {p q v}, v ∈ results (g.code p) → v ∈ results (g.code q) → p = q

/-- What fits a place in an old block still fits it. -/
theorem Keeps.fits {g g' : Flow} {old : BlockId → Prop} (h : g.Keeps g' old) {q : BlockId}
    {pre : List Instr} {i : Instr} (hq : old q) (hi : g.Fits q pre i) : g'.Fits q pre i where
  uses hphi v hv := (hi.uses hphi v hv).imp_right (h.available hq)
  place hphi := by
    rw [h.entry]
    exact hi.place hphi
  sources r ty incoming heq p := (hi.sources r ty incoming heq p).trans (h.edge hq).symm
  incoming r ty incoming heq v p hv := by
    have hpq : g.Edge p q := (hi.sources r ty incoming heq p).1 (List.mem_map.2 ⟨_, hv, rfl⟩)
    exact h.settled (h.source hq hpq) (hi.incoming r ty incoming heq v p hv)

namespace Ssa

variable {g : Flow}

/-- An instruction that fits at the end of a block and computes nothing twice can be put there. -/
theorem append (h : g.Ssa) {q : BlockId} {i : Instr} (hi : g.Fits q (g.code q) i)
    (hnew : ∀ v, i.result? = some v → ∀ p, v ∉ results (g.code p)) : (g.append q i).Ssa := by
  have hkeeps := g.keeps_append q i
  have hresults {p v} (hv : v ∈ results ((g.append q i).code p)) :
      v ∈ results (g.code p) ∨ p = q ∧ i.result? = some v := by
    by_cases hp : p = q
    · subst hp
      rw [code_append_self, results_append, List.mem_append] at hv
      exact hv.imp_right fun hv => ⟨rfl, by simpa [results] using hv⟩
    · rw [code_append_of_ne g q i hp] at hv
      exact .inl hv
  refine ⟨?_, fun p v hv => hkeeps.settled trivial (h.exits p v hv), fun p => ?_, ?_⟩
  · intro p pre j post hsplit
    by_cases hp : p = q
    · subst hp
      rw [code_append_self] at hsplit
      rcases split_of_append_singleton hsplit with ⟨rfl, rfl, rfl⟩ | ⟨less, rfl, hold⟩
      · exact hkeeps.fits trivial hi
      · exact hkeeps.fits trivial (h.fits hold)
    · rw [code_append_of_ne g q i hp] at hsplit
      exact hkeeps.fits trivial (h.fits hsplit)
  · by_cases hp : p = q
    · subst hp
      rw [code_append_self, results_append, List.nodup_append]
      refine ⟨h.nodup p, ?_, ?_⟩
      · unfold results
        cases hr : i.result? <;> simp [hr]
      · intro v hv w hw hvw
        subst hvw
        exact hnew v (by simpa [results] using hw) p hv
    · rw [code_append_of_ne g q i hp]
      exact h.nodup p
  · intro p r v hp hr
    rcases hresults hp with hp | ⟨hpq, hi'⟩
    · rcases hresults hr with hr | ⟨-, hi'⟩
      · exact h.apart hp hr
      · exact absurd hp (hnew v hi' p)
    · rcases hresults hr with hr | ⟨hrq, -⟩
      · exact absurd hr (hnew v hi' r)
      · exact hpq.trans hrq.symm

/-- An open block can be closed with an exit to blocks that are still empty. -/
theorem close (h : g.Ssa) {q : BlockId} {t : Terminator} (hopen : g.exit q = .missing)
    (huses : ∀ v, .temp v ∈ t.operands → g.Settled q v)
    (hempty : ∀ r ∈ t.successors, r ≠ q ∧ g.code r = [] ∧ g.exit r = .missing) :
    (g.close q t).Ssa := by
  have hkeeps := g.keeps_close hopen fun r hr => (hempty r hr).2.2
  refine ⟨?_, ?_, h.nodup, h.apart⟩
  · intro r pre i post hsplit
    have hr : r ∉ t.successors := by
      intro hr
      rw [code_close, (hempty r hr).2.1] at hsplit
      simp at hsplit
    exact hkeeps.fits hr (h.fits hsplit)
  · intro r v hv
    by_cases hr : r = q
    · subst hr
      rw [exit_close_self] at hv
      exact hkeeps.settled (fun hr => (hempty r hr).1 rfl) (huses v hv)
    · rw [exit_close_of_ne g q t hr] at hv
      refine hkeeps.settled ?_ (h.exits r v hv)
      intro hr'
      rw [(hempty r hr').2.2] at hv
      simp [Terminator.operands] at hv

end Ssa

end Flow

end SexprSsa
