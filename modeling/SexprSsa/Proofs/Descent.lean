/-
SexprSsa.Proofs.Descent — runs that only go down the layout.

If all edges of a body lead down its layout, control never comes back to a block
that it has left. What is left to run, the rest of the block and all blocks laid
out behind it, becomes less with each step (`Frame.left`), as long as no function
of the module is called. So no place of the body is come to twice, and a run is
over after as many steps as the body has instructions and blocks.

Main statements: `visits_unique` and `run_ne_stepLimit`.
-/
import SexprSsa.Proofs.Construction
import SexprSsa.Proofs.Runs
import SexprSsa.Proofs.StepLimit
import Mathlib.Algebra.Order.BigOperators.Group.List
import Mathlib.Algebra.Order.Ring.Nat

namespace SexprSsa

/-- All edges of a body lead down its layout. -/
structure Body.Downward (body : Body) : Prop where
  orderly : body.Orderly
  forward : ∀ {p q : BlockId} {b : Block}, body.block? p = some b → q ∈ b.successors →
    q ∈ body.layout ∧ body.layout.idxOf p < body.layout.idxOf q

/-- All edges lead down the layout, and no function is called that has a body. -/
structure Body.Descends (m : Module) (body : Body) : Prop extends body.Downward where
  leaf : ∀ {p : BlockId} {b : Block}, body.block? p = some b →
    ∀ {result : ValueId} {callee : String} {args : List Operand},
      .call result callee args ∈ b.instrs → ∀ f, m.func? callee = some f → f.body = none

namespace Body

/-- What a block has to run: its instructions, and one step to leave it. -/
def weight (body : Body) (q : BlockId) : Nat := (body.code q).length + 1

/-- What the blocks laid out behind a block have to run. -/
def below (body : Body) (q : BlockId) : Nat :=
  ((body.layout.drop (body.layout.idxOf q + 1)).map body.weight).sum

/-- A block and those behind it are the rest of the layout. -/
theorem weight_add_below {body : Body} {q : BlockId} (hq : q ∈ body.layout) :
    body.weight q + body.below q =
      ((body.layout.drop (body.layout.idxOf q)).map body.weight).sum := by
  have hindex : body.layout.idxOf q < body.layout.length := List.idxOf_lt_length_iff.2 hq
  rw [List.drop_eq_getElem_cons hindex, List.getElem_idxOf hindex, List.map_cons, List.sum_cons,
    below]

/-- They are no more than what lies behind an earlier block. -/
theorem weight_add_below_le {body : Body} {p q : BlockId} (hq : q ∈ body.layout)
    (hlt : body.layout.idxOf p < body.layout.idxOf q) :
    body.weight q + body.below q ≤ body.below p := by
  rw [weight_add_below hq]
  have hrest : (body.layout.drop (body.layout.idxOf q)).Sublist
      (body.layout.drop (body.layout.idxOf p + 1)) := List.drop_sublist_drop_left _ hlt
  exact (hrest.map body.weight).sum_le_sum fun _ _ => Nat.zero_le _

/-- All blocks together have as much to run as the body has instructions and blocks. -/
theorem sum_weight {body : Body} (h : body.Orderly) :
    (body.layout.map body.weight).sum = body.size := by
  have hweight : body.blocks.keys.map body.weight =
      body.blocks.values.map fun b => b.instrs.length + 1 := by
    unfold Table.keys Table.values
    rw [List.map_map, List.map_map]
    refine List.map_congr_left ?_
    intro e he
    have hb : body.block? e.1 = some e.2 := (body.blocks.find?_eq_some_iff e.1 e.2).2 he
    simp [weight, Body.code_of_block hb]
  rw [(h.layout.map body.weight).sum_eq, hweight]
  unfold size Table.size
  rw [show body.blocks.entries.length = body.blocks.values.length by simp [Table.values]]
  induction body.blocks.values with
  | nil => rfl
  | cons b rest ih =>
    simp only [List.map_cons, List.sum_cons, List.length_cons] at ih ⊢
    omega

/-- They are no more than the whole body. -/
theorem weight_add_below_le_size {body : Body} (h : body.Orderly) {q : BlockId}
    (hq : q ∈ body.layout) : body.weight q + body.below q ≤ body.size := by
  rw [weight_add_below hq, ← sum_weight h]
  exact ((List.drop_sublist _ body.layout).map body.weight).sum_le_sum fun _ _ => Nat.zero_le _

end Body

namespace Machine

variable {m : Module} {body : Body}

/-- What is left to run in a function: the rest of the block and the blocks laid out behind it. -/
def Frame.left (f : Frame) : Nat := f.code.length + 1 + f.body.below f.block

/-- Control stands in the body, and nothing waits for it. -/
structure Config.Alone (m : Module) (body : Body) (c : Config) : Prop where
  within : c.frame.Within m
  body : c.frame.body = body
  callers : c.callers = []

/-- Entering a block that is laid out further down leaves less to run. -/
theorem Frame.left_goto_lt {f f' : Frame} {q : BlockId} (hcode : f.code = [])
    (hq : q ∈ f.body.layout) (hlt : f.body.layout.idxOf f.block < f.body.layout.idxOf q)
    (h : f.goto q = .ok f') : f'.left < f.left := by
  obtain ⟨b, hb, rfl⟩ := Frame.goto_eq_ok h
  have hweight : f.body.weight q = b.instrs.length + 1 := by
    rw [Body.weight, Body.code_of_block hb]
  have hle := Body.weight_add_below_le hq hlt
  simp only [Frame.left, hcode, List.length_nil]
  omega

namespace Config.Alone

variable {c c' : Config} {n : Nat}

/-- **A step leaves less to run.** -/
theorem step (hc : c.Alone m body) (h : body.Descends m) (hstep : c.step m = .ok (.running c')) :
    c'.Alone m body ∧ c'.frame.left < c.frame.left := by
  have hmoves := Config.step_moves hstep
  have hframes : c.Frames (Frame.Within m) := by
    refine ⟨hc.within, ?_⟩
    rw [hc.callers]
    simp
  have hwithin := ((Frame.Within.kept m).moves hframes hmoves).1
  have hbody := hc.body
  obtain ⟨b, hb, hsuffix, hexit⟩ := hc.within.block
  rw [hbody] at hb
  cases hmoves with
  | on hcode hframe hcallers =>
    refine ⟨⟨hwithin, by rw [hframe, hbody], by rw [hcallers, hc.callers]⟩, ?_⟩
    rw [hframe]
    simp only [Frame.left, hcode, List.length_cons]
    omega
  | along hcode hq hgoto hcallers =>
    rw [hexit] at hq
    have hforward := h.forward hb hq
    rw [← hbody] at hforward
    have hless := Frame.left_goto_lt hcode hforward.1 hforward.2 hgoto
    obtain ⟨b', hb', hframe⟩ := Frame.goto_eq_ok hgoto
    exact ⟨⟨hwithin, by rw [hframe, hbody], by rw [hcallers, hc.callers]⟩, hless⟩
  | into hcode hf hfbody _ _ =>
    rw [hcode] at hsuffix
    rw [h.leaf hb (hsuffix.subset (List.mem_cons_self ..)) _ hf] at hfbody
    cases hfbody
  | back _ hcallers _ =>
    rw [hc.callers] at hcallers
    cases hcallers

/-- Each of many steps does. -/
theorem steps (hc : c.Alone m body) (h : body.Descends m) (hsteps : Steps m n c c') :
    c'.Alone m body ∧ c'.frame.left + n ≤ c.frame.left := by
  induction hsteps with
  | refl => exact ⟨hc, Nat.le_refl _⟩
  | next hstep _ ih =>
    obtain ⟨hc', hless⟩ := hc.step h hstep
    obtain ⟨hc'', hle⟩ := ih hc'
    exact ⟨hc'', by omega⟩

/-- A limit of what is left to run is not reached. -/
theorem resume_ne_stepLimit (hc : c.Alone m body) (h : body.Descends m) {limit left : Nat}
    (hleft : c.frame.left ≤ left) : resume m limit left c ≠ .error (.stepLimit limit) := by
  induction left generalizing c with
  | zero =>
    simp only [Frame.left] at hleft
    omega
  | succ left ih =>
    rw [resume]
    cases hstep : c.step m with
    | error fault =>
      intro hrun
      exact (Config.step_stops hstep).ne_stepLimit limit (Except.error.inj hrun)
    | ok next =>
      cases next with
      | halted result output => simp
      | running c' =>
        obtain ⟨hc', hless⟩ := hc.step h hstep
        exact ih hc' (by omega)

end Config.Alone

/-! ## Runs of a function -/

/-- What is reached in so many steps is passed on the way to what is reached in more. -/
theorem Steps.cancel {n k : Nat} {c c' c'' : Config} (h : Steps m n c c')
    (h' : Steps m (n + k) c c'') : Steps m k c' c'' := by
  induction h with
  | refl => rwa [Nat.zero_add] at h'
  | next hstep _ ih =>
    rw [Nat.add_right_comm] at h'
    cases h' with
    | next hstep' hrest =>
      rw [hstep] at hstep'
      cases hstep'
      exact ih hrest

section
variable {name : String}

/-- A run starts with no more left than the whole of a body. -/
theorem alone_of_entered {frame : Frame} (hinvoke : invoke m name [] = .ok (.entered frame)) :
    ∃ f body, m.func? name = some f ∧ f.body = some body ∧ (body.Descends m →
      (Config.initial m frame).Alone m body ∧ frame.left ≤ body.size) := by
  obtain ⟨f, body, hf, hbody, hbegins⟩ := (invoke_ends m name []).ok hinvoke frame rfl
  obtain ⟨b, hb, rfl⟩ := hbegins
  refine ⟨f, body, hf, hbody, ?_⟩
  intro h
  refine ⟨⟨⟨⟨name, f, hf, hbody⟩, b, hb, List.suffix_refl _, rfl⟩, rfl, rfl⟩, ?_⟩
  have hentry : body.entry ∈ body.layout :=
    h.orderly.layout.mem_iff.2 ((body.blocks.mem_keys_iff _).2 ⟨b, hb⟩)
  have hle := Body.weight_add_below_le_size h.orderly hentry
  rw [Body.weight, Body.code_of_block hb] at hle
  exact hle

/-- **No run of the function comes to a place twice.** -/
theorem visits_unique
    (h : ∀ f body, m.func? name = some f → f.body = some body → body.Descends m) {n n' : Nat}
    {c c' : Config} (hvisit : Visits m name n c) (hvisit' : Visits m name n' c')
    (hblock : c.frame.block = c'.frame.block) (hcode : c.frame.code = c'.frame.code) : n = n' := by
  obtain ⟨frame, hinvoke, hsteps⟩ := hvisit
  obtain ⟨frame', hinvoke', hsteps'⟩ := hvisit'
  rw [hinvoke] at hinvoke'
  cases hinvoke'
  obtain ⟨f, body, hf, hbody, halone⟩ := alone_of_entered hinvoke
  have hdescends := h f body hf hbody
  have hstart := (halone hdescends).1
  have hc := (hstart.steps hdescends hsteps).1
  have hc' := (hstart.steps hdescends hsteps').1
  have hleft : c.frame.left = c'.frame.left := by
    rw [Frame.left, Frame.left, hc.body, hc'.body, hblock, hcode]
  rcases Nat.le_total n n' with hle | hle
  · obtain ⟨k, rfl⟩ := Nat.exists_eq_add_of_le hle
    have hless := (hc.steps hdescends (hsteps.cancel hsteps')).2
    omega
  · obtain ⟨k, rfl⟩ := Nat.exists_eq_add_of_le hle
    have hless := (hc'.steps hdescends (hsteps'.cancel hsteps)).2
    omega

/-- **A limit of the size of the function is not reached.** -/
theorem run_ne_stepLimit {limit : Nat}
    (h : ∀ f body, m.func? name = some f → f.body = some body →
      body.Descends m ∧ body.size ≤ limit) : run m limit name ≠ .error (.stepLimit limit) := by
  unfold run
  cases hinvoke : invoke m name [] with
  | error fault =>
    intro hrun
    exact ((invoke_ends m name []).error hinvoke).ne_stepLimit limit (Except.error.inj hrun)
  | ok invocation =>
    cases invocation with
    | provided written value => simp [bind, Except.bind, pure, Except.pure]
    | entered frame =>
      obtain ⟨f, body, hf, hbody, halone⟩ := alone_of_entered hinvoke
      obtain ⟨hdescends, hlimit⟩ := h f body hf hbody
      obtain ⟨hstart, hleft⟩ := halone hdescends
      exact hstart.resume_ne_stepLimit hdescends (Nat.le_trans hleft hlimit)

end

end Machine

end SexprSsa
