/-
SexprSsa.Proofs.ControlShape — the blocks of a compiled program.

The text of a program tells the blocks of its function: their names, in the order
of the layout, are those that the conditionals give (`Expr.blockNames`). All edges
lead down that order, and the two branches of a conditional meet in its last block
(`Body.Nested`). When the program has been lowered no block waits, so the line of
the builder, which lowering keeps in this shape, is the whole layout; the
allocations at the top of the entry block are in no one's way, since the entry
block is no join.

Main statement: `compileExpr_nested`, with what it means for runs: no place of the
function is come to twice, and a limit of its size is enough.
-/
import SexprSsa.Proofs.BlockOrder
import SexprSsa.Proofs.Descent

namespace SexprSsa

open Machine

/-! ## Names -/

mutual

/-- The names of the blocks that a program adds to the entry block, in the order of the layout. The
target of a declaration or an assignment is not lowered. -/
def Expr.blockNames : Expr → List String
  | .list [.symbol "if", condition, yes, no] =>
      Expr.blockNames condition ++ "then" :: Expr.blockNames yes ++
        "else" :: Expr.blockNames no ++ ["ifend"]
  | .list [.symbol "var", _, init] => Expr.blockNames init
  | .list [.symbol "set", _, value] => Expr.blockNames value
  | .list (.symbol _ :: operands) => Expr.blockNamesAll operands
  | _ => []

/-- The names of the blocks that operands add one after the other. -/
def Expr.blockNamesAll : List Expr → List String
  | [] => []
  | e :: rest => Expr.blockNames e ++ Expr.blockNamesAll rest

end

/-- Forms without blocks of their own add those of their operands. -/
theorem Expr.blockNames_operands {tag : String} (h : tag ∉ ["if", "var", "set"])
    (operands : List Expr) :
    Expr.blockNames (.list (.symbol tag :: operands)) = Expr.blockNamesAll operands := by
  simp only [List.mem_cons, List.not_mem_nil, or_false, not_or] at h
  obtain ⟨hif, hvar, hset⟩ := h
  rw [Expr.blockNames]
  · intro _ _ _ _ htag
    exact hif htag
  · intro _ _ _ htag
    exact hvar htag
  · intro _ _ _ htag
    exact hset htag

mutual

/-- The names that a program gives are those of its form. -/
theorem HasForm.blockNames_eq {strict : Bool} {e : Expr} : (f : Form) → HasForm strict e f →
    Expr.blockNames e = f.blockNames
  | .number _, h => by
    cases h
    simp only [Expr.blockNames, Form.blockNames]
  | .truth _, h => by
    cases h <;> simp only [Expr.blockNames, Form.blockNames]
  | .text _, h => by
    cases h
    simp only [Expr.blockNames, Form.blockNames]
  | .reference _, h => by
    cases h
    simp only [Expr.blockNames, Form.blockNames]
  | .arith op l r, h => by
    cases h with
    | arith hleft hright =>
      rw [Expr.blockNames_operands (by cases op <;> decide)]
      simp [Expr.blockNamesAll, Form.blockNames, HasForm.blockNames_eq l hleft,
        HasForm.blockNames_eq r hright]
  | .compare cond l r, h => by
    cases h with
    | compare hleft hright =>
      rw [Expr.blockNames_operands (by cases cond <;> decide)]
      simp [Expr.blockNamesAll, Form.blockNames, HasForm.blockNames_eq l hleft,
        HasForm.blockNames_eq r hright]
  | .declare _ _ init, h => by
    cases h with
    | declare _ hinit =>
      simp only [Expr.blockNames, Form.blockNames, HasForm.blockNames_eq init hinit]
  | .assign _ value, h => by
    cases h with
    | assign hvalue =>
      simp only [Expr.blockNames, Form.blockNames, HasForm.blockNames_eq value hvalue]
  | .block first rest, h => by
    cases h with
    | block hfirst hrest =>
      rw [Expr.blockNames_operands (by decide)]
      simp only [Expr.blockNamesAll, Form.blockNames, HasForm.blockNames_eq first hfirst,
        HaveForms.blockNames_eq rest hrest]
  | .print template args, h => by
    cases h with
    | print htemplate hargs =>
      rw [Expr.blockNames_operands (by decide)]
      simp only [Expr.blockNamesAll, Form.blockNames, HasForm.blockNames_eq template htemplate,
        HaveForms.blockNames_eq args hargs]
  | .choose condition yes no, h => by
    cases h with
    | choose hcondition hyes hno =>
      simp only [Expr.blockNames, Form.blockNames, HasForm.blockNames_eq condition hcondition,
        HasForm.blockNames_eq yes hyes, HasForm.blockNames_eq no hno]
  | .malformed _, h => by cases h

theorem HaveForms.blockNames_eq {strict : Bool} {es : List Expr} : (forms : List Form) →
    HaveForms strict es forms → Expr.blockNamesAll es = Form.blockNamesAll forms
  | [], h => by
    cases h
    simp only [Expr.blockNamesAll, Form.blockNamesAll]
  | f :: rest, h => by
    cases h with
    | cons hf hrest =>
      simp only [Expr.blockNamesAll, Form.blockNamesAll, HasForm.blockNames_eq f hf,
        HaveForms.blockNames_eq rest hrest]

end

/-! ## Blocks -/

/-- Two blocks lead to the block, and it starts with its only phi. -/
def Body.Meets (body : Body) (b : Block) : Prop :=
  (body.predecessors b.id).length = 2 ∧
    ∃ phi rest, b.instrs = phi :: rest ∧ phi.isPhi = true ∧ ∀ i ∈ rest, i.isPhi = false

/-- The blocks have these names in the order of the layout, all edges lead down the layout, and
branches meet in the blocks named `ifend`. -/
structure Body.Nested (body : Body) (names : List String) : Prop extends body.Downward where
  named : body.laidOut.map Block.name = names
  meets : ∀ b ∈ body.laidOut, b.name = "ifend" → body.Meets b

/-- Of two blocks in this order, the first is laid out first. -/
theorem idxOf_lt_of_sublist {p q : BlockId} {layout : List BlockId} (hnodup : layout.Nodup)
    (h : [p, q].Sublist layout) : layout.idxOf p < layout.idxOf q := by
  have happend : ([p] ++ [q]).Sublist layout := h
  obtain ⟨before, after, rfl, hp, hq⟩ := List.append_sublist_iff.1 happend
  rw [List.singleton_sublist] at hp hq
  have hq' : q ∉ before := by
    intro hmem
    exact (List.nodup_append.1 hnodup).2.2 q hmem q hq rfl
  have hlt : before.idxOf p < before.length := List.idxOf_lt_length_iff.2 hp
  rw [List.idxOf_append_of_mem hp, List.idxOf_append_of_notMem hq']
  omega

namespace Builder

variable {b : Builder}

theorem Shaped.orderly (h : b.Shaped) : b.body.Orderly :=
  ⟨h.entry, h.inhabited, h.keys, h.ids, h.layout⟩

/-- The layout lists no number without a block. -/
theorem Shaped.laidOut_some (h : b.Shaped) :
    b.body.laidOut.map some = b.body.layout.map b.body.block? := by
  have hblocks : ∀ q ∈ b.body.layout, ∃ blk, b.body.block? q = some blk := by
    intro q hq
    exact h.exists_block (h.mem_layout.1 hq)
  unfold Body.laidOut
  revert hblocks
  induction b.body.layout with
  | nil => exact fun _ => rfl
  | cons q rest ih =>
    intro hblocks
    obtain ⟨⟨blk, hblk⟩, hrest⟩ := List.forall_mem_cons.1 hblocks
    simp [hblk, ih hrest]

/-- What the blocks have in the order of the layout can be looked up by their numbers. -/
theorem Shaped.laidOut_map {α : Type} (h : b.Shaped) (f : Block → α) {l : List α}
    (hl : (b.body.layout.map fun q => (b.body.block? q).map f) = l.map some) :
    b.body.laidOut.map f = l := by
  have hsome : (b.body.laidOut.map f).map some = l.map some :=
    calc (b.body.laidOut.map f).map some
        = (b.body.laidOut.map some).map (Option.map f) := by simp
      _ = b.body.layout.map fun q => (b.body.block? q).map f := by
        rw [h.laidOut_some, List.map_map]
        rfl
      _ = l.map some := hl
  exact List.map_injective_iff.2 (Option.some_injective _) hsome

theorem Shaped.laidOut_ids (h : b.Shaped) : b.body.laidOut.map Block.id = b.body.layout := by
  refine h.laidOut_map Block.id (List.map_congr_left ?_)
  intro q hq
  obtain ⟨blk, hblk⟩ := h.exists_block (h.mem_layout.1 hq)
  simp [hblk, h.ids hblk]

/-- No block is listed twice among those that lead to another. -/
theorem Shaped.nodup_predecessors (h : b.Shaped) (q : BlockId) :
    (b.body.predecessors q).Nodup := by
  have hsub : (b.body.predecessors q).Sublist (b.body.laidOut.map Block.id) :=
    List.filter_sublist.map Block.id
  rw [h.laidOut_ids] at hsub
  exact h.nodup_layout.sublist hsub

/-- A join of the graph is one of the body, if it is not the entry block. -/
theorem Shaped.meets (h : b.Shaped) {q : BlockId} {blk : Block} (hblk : b.body.block? q = some blk)
    (hq : q ≠ b.body.entry) (hjoins : b.flow.Joins q) : b.body.Meets blk := by
  obtain ⟨⟨p, p', hne, hedges⟩, hphi⟩ := hjoins
  obtain rfl := h.ids hblk
  constructor
  · have hperm : (b.body.predecessors blk.id).Perm [p, p'] := by
      refine (List.perm_ext_iff_of_nodup (h.nodup_predecessors _) (by simp [hne])).2 ?_
      intro r
      rw [h.mem_predecessors, hedges]
      simp
    exact hperm.length_eq
  · rwa [Shaped.code_of_ne_entry hq, Body.code_of_block hblk] at hphi

theorem line_nil (b : Builder) : b.line [] = b.body.layout := by
  simp [line]

theorem Arranged.start (signature : Signature) : (start signature).Arranged [] where
  last := ⟨[], rfl⟩
  edges he := by simp [flow_start, Flow.Edge, Terminator.successors] at he
  joins {q} hq hname := by
    rw [line_nil] at hq
    obtain rfl : q = ⟨0⟩ := List.mem_singleton.1 hq
    rw [Body.nameOf, block?_start] at hname
    exact absurd hname (by decide)

/-- The function returns, and nothing else changes. -/
theorem Arranged.returned (ha : b.Arranged []) (h : b.Open []) (value : Option Operand) :
    (b.conclude (.ret value)).Arranged [] := by
  have hedge (p q : BlockId) : (b.conclude (.ret value)).flow.Edge p q ↔ b.flow.Edge p q := by
    rw [h.flow_conclude, Flow.edge_close_open h.current_open]
    simp [Terminator.successors]
  refine ha.of_eq rfl rfl (nameOf_conclude b _) hedge ?_
  intro q hq
  refine hq.of_eq (fun r => hedge r q) ?_
  rw [h.flow_conclude]
  rfl

/-- At the end of lowering no block waits, and the line is the layout. -/
theorem Arranged.nested (ha : b.Arranged []) (h : b.Shaped) {names : List String}
    (hnames : b.body.layout.map b.body.nameOf = names.map some)
    (hentry : b.body.nameOf b.body.entry ≠ some "ifend") : b.body.Nested names where
  orderly := h.orderly
  named := h.laidOut_map Block.name hnames
  forward {p q blk} hblk hq := by
    have hedge : b.flow.Edge p q := by
      rw [Flow.Edge, show b.flow.exit p = blk.terminator from Body.exit_of_block hblk]
      exact hq
    rcases ha.edges hedge with hwaits | hsub
    · simp at hwaits
    · rw [line_nil] at hsub
      exact ⟨hsub.subset (by simp), idxOf_lt_of_sublist h.nodup_layout hsub⟩
  meets blk hmem hname := by
    have hblk := h.mem_laidOut.1 hmem
    have hnamed : b.body.nameOf blk.id = some "ifend" := by simp [Body.nameOf, hblk, hname]
    have hne : blk.id ≠ b.body.entry := by
      intro heq
      exact hentry (heq ▸ hnamed)
    have hline : blk.id ∈ b.line [] := by
      rw [line_nil, h.mem_layout]
      exact h.lt_of_block hblk
    exact h.meets hblk hne (ha.joins hline hnamed)

end Builder

/-! ## Compiled programs -/

namespace Compiled

variable {options : Options} {program : Expr} {m : Module} {prepared : Module × Scopes}
  {v : Operand} {t : LowerState}

theorem nested (h : Compiled options program m prepared v t) :
    t.returned.builder.body.Nested ("entry" :: program.blockNames) := by
  have harranges := Form.arranges _ h.lowered h.ready.sound (.start options.signature)
  rw [← HasForm.blockNames_eq _ (h.lowered.hasForm program)] at harranges
  have hname (q : BlockId) : t.returned.builder.body.nameOf q = t.builder.body.nameOf q :=
    Builder.nameOf_conclude ..
  have hentry : t.builder.body.nameOf ⟨0⟩ = some "entry" := by
    rw [harranges.named ⟨0⟩ Nat.zero_lt_one, Body.nameOf]
    exact congrArg (Option.map Block.name) (Builder.block?_start options.signature ⟨0⟩)
  obtain ⟨new, hline, hnew⟩ := harranges.line
  have harranged : t.returned.builder.Arranged [] :=
    harranges.arranged.returned h.reaches.sound.opened _
  refine harranged.nested h.finished.toShaped ?_ ?_
  · rw [funext hname]
    change t.builder.body.layout.map _ = _
    rw [← Builder.line_nil, hline]
    change (⟨0⟩ :: new).map _ = _
    rw [List.map_cons, List.map_cons, hentry, hnew]
  · rw [h.finished.entry, hname, hentry]
    decide

/-- The only function that a compiled function calls is provided. -/
theorem descends (h : Compiled options program m prepared v t) :
    t.returned.builder.body.Descends m where
  toDownward := h.nested.toDownward
  leaf {p b} hb {result callee args} hi f hf := by
    obtain ⟨pre, post, hsplit⟩ := List.append_of_mem hi
    rw [← Body.code_of_block hb] at hsplit
    rcases h.finished.split hsplit with ⟨halloca, -, -⟩ | ⟨pre', hcode, -, -⟩
    · cases halloca
    · have hcall : Instr.call result callee args ∈ t.returned.builder.flow.code p := by
        simp [hcode]
      obtain ⟨rfl, -⟩ := h.finished.sound.calls hcall
      rw [h.func?_print] at hf
      cases hf
      rfl

/-- Only the entry function has a body. -/
theorem body_eq (h : Compiled options program m prepared v t) {name : String} {f : Func}
    {body : Body} (hf : m.func? name = some f) (hbody : f.body = some body) :
    body = t.returned.builder.body := by
  by_cases hentry : name = options.entry
  · subst hentry
    rw [h.func?_entry] at hf
    cases hf
    cases hbody
    rfl
  · by_cases hprint : name = printName
    · subst hprint
      rw [h.func?_print] at hf
      cases hf
      cases hbody
    · rw [h.func?_eq_none hentry hprint] at hf
      cases hf

end Compiled

/-- **The control flow of a compiled program has the shape of its text.** The blocks have the names
that the conditionals of the program give, in that order; all edges lead down the layout; two blocks
lead to the last block of each conditional, which starts with its only phi. So no run of the module
comes to a place twice, and none needs a higher limit than the size of the function. -/
theorem compileExpr_nested {options : Options} {program : Expr} {m : Module}
    (h : compileExpr options program = .ok m) :
    ∃ body, m.func? options.entry = some ⟨options.signature, some body⟩ ∧
      body.Nested ("entry" :: program.blockNames) ∧
      (∀ name n n' c c', Visits m name n c → Visits m name n' c' →
        c.frame.block = c'.frame.block → c.frame.code = c'.frame.code → n = n') ∧
      ∀ name limit, body.size ≤ limit → run m limit name ≠ .error (.stepLimit limit) := by
  obtain ⟨prepared, v, t, hc⟩ := compileExpr_compiled h
  refine ⟨t.returned.builder.body, hc.func?_entry, hc.nested, ?_, ?_⟩
  · intro name n n' c c' hvisit hvisit'
    refine visits_unique ?_ hvisit hvisit'
    intro f body hf hbody
    exact hc.body_eq hf hbody ▸ hc.descends
  · intro name limit hlimit
    refine run_ne_stepLimit ?_
    intro f body hf hbody
    rw [hc.body_eq hf hbody]
    exact ⟨hc.descends, hlimit⟩

/-- `(printf "%d" (if (if (< 1 2) (> 2 1) (== 1 2)) (if (== 3 4) 5 6) (+ 7 8)))` -/
def nestedConditionals : Expr :=
  .list [.symbol "printf", .text "%d",
    .list [.symbol "if",
      .list [.symbol "if", .list [.symbol "<", .number 1, .number 2],
        .list [.symbol ">", .number 2, .number 1],
        .list [.symbol "==", .number 1, .number 2]],
      .list [.symbol "if", .list [.symbol "==", .number 3, .number 4], .number 5, .number 6],
      .list [.symbol "+", .number 7, .number 8]]]

theorem compileExpr_nested_nestedConditionals :
    ∃ m body, compileExpr .standard nestedConditionals = .ok m ∧
      m.func? Options.standard.entry = some ⟨Options.standard.signature, some body⟩ ∧
      body.Nested ["entry", "then", "else", "ifend", "then", "then", "else", "ifend", "else",
        "ifend"] ∧
      ∀ name limit, body.size ≤ limit → run m limit name ≠ .error (.stepLimit limit) := by
  obtain ⟨m, hm⟩ := exists_of_isOk (x := compileExpr .standard nestedConditionals)
    (by decide +kernel)
  obtain ⟨body, hbody, hnested, -, hlimit⟩ := compileExpr_nested hm
  exact ⟨m, body, hm, hbody, hnested, hlimit⟩

end SexprSsa
