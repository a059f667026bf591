/-
SexprSsa.Proofs.SoundDraft — what lowering has written is in order.

An operand is known if it names something that exists, and a draft is sound if
its graph is in static single assignment form, its operands are known, its
edges lead to blocks, its calls are calls of the print function, and it returns
nothing but zero. Both survive whatever adds to a draft.

Main statements: `Builder.Sound.put` and `Builder.Sound.conclude`, the two
operations that change the graph.
-/
import SexprSsa.Proofs.Growth
import SexprSsa.Compile.Scope

namespace SexprSsa

/-! ## Operands and names that refer to something -/

/-- An operand names something that exists; the function under construction counts. -/
def Operand.Known (m : Module) (b : Builder) : Operand → Prop
  | .const _ => True
  | .temp v => ∃ q, v ∈ results (b.flow.code q)
  | .slot s => s.index < b.body.slots.length
  | .global g => (m.global? g).isSome
  | .str s => (m.string? s).isSome
  | .func name => name = b.signature.name

/-- What a name refers to exists. The only value that has a name is the function itself. -/
def Binding.Known (m : Module) (b : Builder) : Binding → Prop
  | .slot s _ => s.index < b.body.slots.length
  | .global g _ => (m.global? g).isSome
  | .value v => v = .func b.signature.name

/-- A module to which strings were added. -/
structure Module.Grows (m m' : Module) : Prop where
  name : m'.name = m.name
  globals : m'.globals = m.globals
  functions : m'.functions = m.functions
  strings : m.strings <+: m'.strings

theorem Module.Grows.refl (m : Module) : m.Grows m := ⟨rfl, rfl, rfl, List.prefix_rfl⟩

theorem Module.Grows.trans {m m' m'' : Module} (h : m.Grows m') (h' : m'.Grows m'') :
    m.Grows m'' :=
  ⟨h'.name.trans h.name, h'.globals.trans h.globals, h'.functions.trans h.functions,
    h.strings.trans h'.strings⟩

theorem Module.Grows.global? {m m' : Module} (h : m.Grows m') (g : GlobalId) :
    m'.global? g = m.global? g := by
  unfold Module.global?
  rw [h.globals]

theorem Module.Grows.string? {m m' : Module} (h : m.Grows m') {s : StrId} {c : StrConst}
    (hs : m.string? s = some c) : m'.string? s = some c := by
  obtain ⟨more, hmore⟩ := h.strings
  unfold Module.string? at hs ⊢
  rw [← hmore]
  exact List.getElem?_append_left (List.getElem?_eq_some_iff.1 hs).1 ▸ hs

/-- What counts for operands and names: computed values, slots, the function's name. -/
structure Builder.Covers (b b' : Builder) : Prop where
  results : ∀ q v, v ∈ results (b.flow.code q) → v ∈ SexprSsa.results (b'.flow.code q)
  slots : b.body.slots.length ≤ b'.body.slots.length
  signature : b'.signature = b.signature

theorem Builder.Grows.covers {pending : List BlockId} {b b' : Builder} (hb : b.Open pending)
    (h : b.Grows b') : b.Covers b' where
  results q _ hv := results_sublist (h.within hb q).1 hv
  slots := h.slots.length_le
  signature := h.signature

theorem Operand.Known.mono {m m' : Module} {b b' : Builder} (hm : m.Grows m')
    (hb : b.Covers b') {v : Operand} (h : v.Known m b) : v.Known m' b' := by
  cases v with
  | const _ => trivial
  | temp v =>
    obtain ⟨q, hq⟩ := h
    exact ⟨q, hb.results q v hq⟩
  | slot s => exact Nat.lt_of_lt_of_le h hb.slots
  | global g => exact (congrArg Option.isSome (hm.global? g)).trans h
  | str s =>
    obtain ⟨c, hc⟩ := Option.isSome_iff_exists.1 h
    exact Option.isSome_iff_exists.2 ⟨c, hm.string? hc⟩
  | func name => exact Eq.trans h (congrArg Signature.name hb.signature).symm

theorem Binding.Known.mono {m m' : Module} {b b' : Builder} (hm : m.Grows m')
    (hb : b.Covers b') {binding : Binding} (h : binding.Known m b) : binding.Known m' b' := by
  cases binding with
  | slot s _ => exact Nat.lt_of_lt_of_le h hb.slots
  | global g _ => exact (congrArg Option.isSome (hm.global? g)).trans h
  | value v =>
    have hv : v = .func b.signature.name := h
    rw [hv]
    exact congrArg (fun signature => Operand.func signature.name) hb.signature.symm

/-! ## Sound builders -/

/-- What lowering has written is in order. -/
structure Builder.Sound (m : Module) (b : Builder) : Prop where
  ssa : b.flow.Ssa
  drawn : ∀ {q v}, v ∈ results (b.flow.code q) → v.index < b.body.nextValue
  targets : ∀ {p q}, b.flow.Edge p q → q.index < b.body.nextBlock
  operands : ∀ {q i v}, i ∈ b.flow.code q → v ∈ i.operands → v.Known m b
  exits : ∀ {q v}, v ∈ (b.flow.exit q).operands → v.Known m b
  plain : ∀ {q i}, i ∈ b.flow.code q → i.isAlloca = false
  calls : ∀ {q r callee args}, .call r callee args ∈ b.flow.code q →
    callee = printName ∧ args ≠ []
  returns : ∀ {q v}, b.flow.exit q = .ret v → v = some (.ofInt 0)

/-- An instruction may be put at the cursor. -/
structure Builder.Accepts (m : Module) (b : Builder) (i : Instr) : Prop where
  fits : b.flow.Fits b.cursor.block (b.flow.code b.cursor.block) i
  fresh : ∀ v, i.result? = some v →
    v.index < b.body.nextValue ∧ ∀ q, v ∉ results (b.flow.code q)
  operands : ∀ v ∈ i.operands, v.Known m b
  plain : i.isAlloca = false
  calls : ∀ r callee args, i = .call r callee args → callee = printName ∧ args ≠ []

namespace Builder.Sound

variable {m m' : Module} {b b' : Builder} {pending : List BlockId}

theorem grows_module (h : b.Sound m) (hm : m.Grows m') (hb : b.Covers b) : b.Sound m' :=
  { h with
    operands := fun hi hv => (h.operands hi hv).mono hm hb
    exits := fun hv => (h.exits hv).mono hm hb }

/-- Counters and slots may grow as long as the graph stays. -/
theorem of_flow (h : b.Sound m) (hflow : b'.flow = b.flow)
    (hblocks : b.body.nextBlock ≤ b'.body.nextBlock)
    (hvalues : b.body.nextValue ≤ b'.body.nextValue) (hb : b.Covers b') : b'.Sound m where
  ssa := by
    rw [hflow]
    exact h.ssa
  drawn hv := by
    rw [hflow] at hv
    exact Nat.lt_of_lt_of_le (h.drawn hv) hvalues
  targets he := by
    rw [hflow] at he
    exact Nat.lt_of_lt_of_le (h.targets he) hblocks
  operands hi hv := by
    rw [hflow] at hi
    exact (h.operands hi hv).mono (.refl m) hb
  exits hv := by
    rw [hflow] at hv
    exact (h.exits hv).mono (.refl m) hb
  plain hi := by
    rw [hflow] at hi
    exact h.plain hi
  calls hi := by
    rw [hflow] at hi
    exact h.calls hi
  returns he := by
    rw [hflow] at he
    exact h.returns he

theorem put (h : b.Sound m) (ho : b.Open pending) {i : Instr} (hi : b.Accepts m i) :
    (b.put i).Sound m := by
  have hcovers := (ho.grows_put i).covers ho
  have hflow := ho.flow_put i
  have hmem {q j} (hj : j ∈ (b.put i).flow.code q) : j ∈ b.flow.code q ∨ j = i := by
    rw [hflow] at hj
    by_cases hq : q = b.cursor.block
    · subst hq
      simpa using hj
    · rw [Flow.code_append_of_ne _ _ _ hq] at hj
      exact .inl hj
  refine ⟨?_, ?_, ?_, ?_, ?_, ?_, ?_, ?_⟩
  · rw [hflow]
    exact h.ssa.append hi.fits fun v hv q => (hi.fresh v hv).2 q
  · intro q v hv
    obtain ⟨j, hj, hr⟩ := mem_results.1 hv
    rcases hmem hj with hj | rfl
    · exact h.drawn (mem_results.2 ⟨j, hj, hr⟩)
    · exact (hi.fresh v hr).1
  · intro p q he
    rw [hflow] at he
    exact h.targets he
  · intro q j v hj hv
    rcases hmem hj with hj | rfl
    · exact (h.operands hj hv).mono (.refl m) hcovers
    · exact (hi.operands v hv).mono (.refl m) hcovers
  · intro q v hv
    rw [hflow] at hv
    exact (h.exits hv).mono (.refl m) hcovers
  · intro q j hj
    rcases hmem hj with hj | rfl
    · exact h.plain hj
    · exact hi.plain
  · intro q r callee args hj
    rcases hmem hj with hj | hj
    · exact h.calls hj
    · exact hi.calls r callee args hj.symm
  · intro q v he
    rw [hflow] at he
    exact h.returns he

/-- The block of the cursor may be given an exit to blocks that wait. -/
theorem conclude (h : b.Sound m) (ho : b.Open pending) {t : Terminator}
    (htargets : ∀ q ∈ t.successors, q ∈ pending)
    (hoperands : ∀ v ∈ t.operands, v.Known m b ∧
      ∀ w, v = .temp w → b.flow.Settled b.cursor.block w)
    (hret : ∀ v, t = .ret v → v = some (.ofInt 0)) : (b.conclude t).Sound m := by
  have hflow := ho.flow_conclude t
  have hcovers : b.Covers (b.conclude t) := by
    refine ⟨fun q v hv => ?_, Nat.le_refl _, rfl⟩
    rw [hflow]
    exact hv
  have hcode {q} : (b.conclude t).flow.code q = b.flow.code q := by rw [hflow]; rfl
  have hexit {q} : (b.conclude t).flow.exit q = t ∨
      (b.conclude t).flow.exit q = b.flow.exit q := by
    rw [hflow]
    by_cases hq : q = b.cursor.block
    · subst hq
      exact .inl (Flow.exit_close_self ..)
    · exact .inr (Flow.exit_close_of_ne _ _ _ hq)
  refine ⟨?_, ?_, ?_, ?_, ?_, ?_, ?_, ?_⟩
  · rw [hflow]
    refine h.ssa.close ho.current_open (fun w hw => (hoperands _ hw).2 w rfl) fun q hq => ?_
    have hq := htargets q hq
    exact ⟨ho.pending_ne hq, ho.empty q hq, ho.pending_open hq⟩
  · intro q v hv
    rw [hcode] at hv
    exact h.drawn hv
  · intro p q he
    rw [hflow, Flow.edge_close] at he
    rcases he with ⟨-, hq⟩ | ⟨-, he⟩
    · exact ho.pending_lt (htargets q hq)
    · exact h.targets he
  · intro q i v hi hv
    rw [hcode] at hi
    exact (h.operands hi hv).mono (.refl m) hcovers
  · intro q v hv
    rcases hexit (q := q) with he | he <;> rw [he] at hv
    · exact (hoperands v hv).1.mono (.refl m) hcovers
    · exact (h.exits hv).mono (.refl m) hcovers
  · intro q i hi
    rw [hcode] at hi
    exact h.plain hi
  · intro q r callee args hi
    rw [hcode] at hi
    exact h.calls hi
  · intro q v hv
    rcases hexit (q := q) with he | he <;> rw [he] at hv
    · exact hret v hv
    · exact h.returns hv

end Builder.Sound

end SexprSsa
