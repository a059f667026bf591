/-
SexprSsa.Proofs.Finished — finished drafts pass the check of functions.

A draft is finished when every block has its terminator. Its graph leaves out
the allocations of the entry block, which compute nothing and read nothing, so
what the graph says of code and edges holds of the body (`Shaped.split`,
`Shaped.mem_predecessors`).

Main statement: `Finished.check`. A finished and sound draft has none of the
flaws that the check looks for.
-/
import SexprSsa.Proofs.SoundDraft
import SexprSsa.Ir.Verify

namespace SexprSsa

theorem forM_eq_ok {ε α : Type} {f : α → Except ε Unit} {l : List α}
    (h : ∀ a ∈ l, f a = .ok ()) : l.forM f = .ok () := by
  induction l with
  | nil => rfl
  | cons a rest ih =>
    change (f a >>= fun _ => rest.forM f) = .ok ()
    rw [h a (by simp)]
    exact ih fun b hb => h b (List.mem_cons_of_mem _ hb)

namespace Builder

variable {b : Builder}

/-! ## The graph and the body -/

theorem results_allocations (slots : List StackSlot) :
    results (slots.map StackSlot.allocation) = [] := by
  simp [results, List.filterMap_eq_nil_iff, StackSlot.allocation, Instr.result?]

/-- An instruction of the body is an allocation of the entry block or stands in the graph. -/
theorem Shaped.split (h : b.Shaped) {q : BlockId} {pre post : List Instr} {i : Instr}
    (hsplit : b.body.code q = pre ++ i :: post) :
    (i.isAlloca = true ∧ i.operands = [] ∧ q = b.body.entry) ∨
      ∃ pre', b.flow.code q = pre' ++ i :: post ∧ results pre = results pre' ∧
        (q ≠ b.body.entry → pre = pre') := by
  by_cases hq : q = b.body.entry
  · subst hq
    rw [h.code_entry] at hsplit
    rcases List.append_eq_append_iff.1 hsplit with ⟨pre', rfl, hcode⟩ | ⟨more, hslots, hrest⟩
    · refine .inr ⟨pre', hcode, ?_, fun hne => absurd rfl hne⟩
      rw [results_append, results_allocations, List.nil_append]
    · cases more with
      | nil =>
        refine .inr ⟨[], by simpa using hrest.symm, ?_, fun hne => absurd rfl hne⟩
        rw [← show b.body.slots.map StackSlot.allocation = pre by simpa using hslots,
          results_allocations, results_nil]
      | cons j more =>
        obtain ⟨rfl, -⟩ := List.cons.inj hrest
        have hmem : i ∈ b.body.slots.map StackSlot.allocation := by simp [hslots]
        obtain ⟨slot, -, rfl⟩ := List.mem_map.1 hmem
        exact .inl ⟨rfl, rfl, rfl⟩
  · rw [← Shaped.code_of_ne_entry hq] at hsplit
    exact .inr ⟨pre, hsplit, rfl, fun _ => rfl⟩

theorem Shaped.results_code (h : b.Shaped) (q : BlockId) :
    results (b.body.code q) = results (b.flow.code q) := by
  by_cases hq : q = b.body.entry
  · rw [hq, h.code_entry, results_append, results_allocations, List.nil_append]
  · rw [Shaped.code_of_ne_entry hq]

/-- The values that the instructions of the body define are those of the graph. -/
theorem Shaped.mem_definedValues (h : b.Shaped) {v : ValueId} :
    v ∈ b.body.definedValues ↔ ∃ q, v ∈ results (b.flow.code q) := by
  have hvalue {blk : Block} : blk ∈ b.body.blocks.values ↔ ∃ q, b.body.block? q = some blk := by
    constructor
    · intro hblk
      obtain ⟨⟨q, _⟩, he, rfl⟩ := List.mem_map.1 hblk
      exact ⟨q, (b.body.blocks.find?_eq_some_iff q _).2 he⟩
    · rintro ⟨q, hq⟩
      exact List.mem_map.2 ⟨(q, blk), (b.body.blocks.find?_eq_some_iff q blk).1 hq, rfl⟩
  unfold Body.definedValues
  rw [List.mem_flatMap]
  constructor
  · rintro ⟨blk, hblk, hv⟩
    obtain ⟨q, hq⟩ := hvalue.1 hblk
    refine ⟨q, ?_⟩
    rw [← h.results_code, Body.code_of_block hq]
    exact hv
  · rintro ⟨q, hv⟩
    rw [← h.results_code] at hv
    cases hq : b.body.block? q with
    | none => simp [Body.code_of_none hq] at hv
    | some blk =>
      rw [Body.code_of_block hq] at hv
      exact ⟨blk, hvalue.2 ⟨q, hq⟩, hv⟩

theorem Shaped.mem_laidOut (h : b.Shaped) {blk : Block} :
    blk ∈ b.body.laidOut ↔ b.body.block? blk.id = some blk := by
  unfold Body.laidOut
  rw [List.mem_filterMap]
  constructor
  · rintro ⟨q, -, hq⟩
    rwa [h.ids hq]
  · intro hblk
    exact ⟨blk.id, h.layout.mem_iff.2 ((b.body.blocks.mem_keys_iff _).2 ⟨blk, hblk⟩), hblk⟩

/-- The predecessors that the body lists are those of the graph. -/
theorem Shaped.mem_predecessors (h : b.Shaped) {p q : BlockId} :
    p ∈ b.body.predecessors q ↔ b.flow.Edge p q := by
  have hexit {blk : Block} (hblk : b.body.block? p = some blk) :
      b.flow.exit p = blk.terminator := Body.exit_of_block hblk
  unfold Body.predecessors
  simp only [List.mem_map, List.mem_filter, decide_eq_true_eq]
  constructor
  · rintro ⟨blk, ⟨hblk, hq⟩, rfl⟩
    rw [Flow.Edge, hexit (h.mem_laidOut.1 hblk)]
    exact hq
  · intro he
    cases hp : b.body.block? p with
    | none =>
      have hmissing : b.flow.exit p = .missing := Body.exit_of_none hp
      simp [Flow.Edge, hmissing, Terminator.successors] at he
    | some blk =>
      obtain rfl := h.ids hp
      rw [Flow.Edge, hexit hp] at he
      exact ⟨blk, ⟨h.mem_laidOut.2 hp, he⟩, rfl⟩

/-! ## The check -/

/-- A sound draft in which every block has its terminator. -/
structure Finished (m : Module) (b : Builder) : Prop extends b.Shaped where
  sound : b.Sound m
  exits : ∀ q, q.index < b.body.nextBlock → b.flow.exit q ≠ .missing

/-- The module in which a finished function is checked. -/
structure Holds (m : Module) (b : Builder) (m' : Module) : Prop where
  globals : ∀ g, m'.global? g = m.global? g
  strings : ∀ s, m'.string? s = m.string? s
  self : (m'.func? b.signature.name).isSome
  print : m'.func? printName = some (.declared printSignature)

namespace Finished

variable {m m' : Module}

theorem checkOperand (h : b.Finished m) (hm : Holds m b m') {v : Operand} (hv : v.Known m b) :
    b.body.checkOperand m' v = .ok () := by
  cases v with
  | const c => rfl
  | temp w => exact if_pos (h.mem_definedValues.2 hv)
  | slot s =>
    refine if_pos ?_
    rw [Body.slot?, Option.isSome_iff_exists]
    exact ⟨_, List.getElem?_eq_getElem hv⟩
  | global g => exact if_pos (hm.globals g ▸ hv)
  | str s => exact if_pos (hm.strings s ▸ hv)
  | func name =>
    have hname : name = b.signature.name := hv
    subst hname
    exact if_pos hm.self

theorem checkTerminator (h : b.Finished m) (hm : Holds m b m') {ret : Ty} (hret : ret ≠ .void)
    {q : BlockId} {blk : Block} (hblk : b.body.block? q = some blk) :
    b.body.checkTerminator m' ret blk = .ok () := by
  have hexit : b.flow.exit q = blk.terminator := Body.exit_of_block hblk
  have hoperands : ∀ v ∈ blk.terminator.operands, b.body.checkOperand m' v = .ok () := by
    intro v hv
    rw [← hexit] at hv
    exact h.checkOperand hm (h.sound.exits hv)
  unfold Body.checkTerminator
  cases ht : blk.terminator with
  | jump target => rfl
  | branch condition yes no =>
    rw [ht] at hoperands
    exact hoperands condition (by simp [Terminator.operands])
  | ret value =>
    have hvalue := h.sound.returns (hexit.trans ht)
    subst hvalue
    exact if_neg hret
  | missing =>
    refine absurd ?_ (h.exits q (h.lt_of_block hblk))
    rw [hexit, ht]

theorem checkTargets (h : b.Finished m) {q : BlockId} {blk : Block}
    (hblk : b.body.block? q = some blk) : b.body.checkTargets blk = .ok () := by
  refine forM_eq_ok ?_
  intro target htarget
  have hexit : b.flow.exit q = blk.terminator := Body.exit_of_block hblk
  have hedge : b.flow.Edge q target := by
    rw [Flow.Edge, hexit]
    exact htarget
  obtain ⟨blk', hblk'⟩ := h.exists_block (h.sound.targets hedge)
  exact if_pos (Option.isSome_iff_exists.2 ⟨blk', hblk'⟩)

/-- A phi of a finished draft names exactly the predecessors of its block. -/
theorem checkIncoming (h : b.Finished m) {q : BlockId} {incoming : List (Operand × BlockId)}
    (hsources : ∀ p, p ∈ incoming.map Prod.snd ↔ b.flow.Edge p q) :
    b.body.checkIncoming q incoming = .ok () := by
  unfold Body.checkIncoming
  refine Eq.trans (congrArg (· >>= _) (forM_eq_ok ?_)) (forM_eq_ok ?_)
  · intro entry hentry
    refine if_pos (h.mem_predecessors.2 ((hsources _).1 ?_))
    exact List.mem_map.2 ⟨entry, hentry, rfl⟩
  · intro source hsource
    exact if_pos ((hsources _).2 (h.mem_predecessors.1 hsource))

theorem checkPlace (h : b.Finished m) {q : BlockId} {blk : Block}
    (hblk : b.body.block? q = some blk) {pre post : List Instr} {i : Instr}
    (hsplit : b.body.code q = pre ++ i :: post) :
    b.body.checkPlace blk (pre.any fun j => !j.isPhi) i = .ok () := by
  have hid : blk.id = q := h.ids hblk
  rcases h.split hsplit with ⟨halloca, -, hentry⟩ | ⟨pre', hcode, -, hpre⟩
  · cases i with
    | alloca slot ty name => exact if_pos (hid.trans hentry)
    | _ => cases halloca
  · have hfits := h.sound.ssa.fits hcode
    cases i with
    | alloca slot ty name =>
      have hplain := h.sound.plain (i := .alloca slot ty name) (q := q) (by simp [hcode])
      cases hplain
    | phi r ty incoming =>
      obtain ⟨hentry, hphis⟩ := hfits.place rfl
      rw [← hpre hentry] at hphis
      have hearly : (pre.any fun j => !j.isPhi) = false := by
        simpa [List.any_eq_false] using hphis
      unfold Body.checkPlace
      simp only [hearly, hid, Bool.false_eq_true, if_false]
      exact h.checkIncoming (hfits.sources r ty incoming rfl)
    | _ => rfl

theorem checkCall (h : b.Finished m) (hm : Holds m b m') {q : BlockId} {i : Instr}
    (hi : i ∈ b.flow.code q) : Body.checkCall m' i = .ok () := by
  cases i with
  | call r callee args =>
    obtain ⟨rfl, hargs⟩ := h.sound.calls hi
    have hlength : 1 ≤ args.length := List.length_pos_iff.2 hargs
    unfold Body.checkCall
    simp [hm.print, Func.declared, Signature.accepts, printSignature, hlength]
  | _ => rfl

theorem checkInstrs (h : b.Finished m) (hm : Holds m b m') {q : BlockId} {blk : Block}
    (hblk : b.body.block? q = some blk) {rest : List Instr} :
    ∀ {pre : List Instr}, b.body.code q = pre ++ rest →
      b.body.checkInstrs m' blk (pre.any fun j => !j.isPhi) rest = .ok () := by
  induction rest with
  | nil => exact fun _ => rfl
  | cons i rest ih =>
    intro pre hsplit
    have hoperands : i.operands.forM (b.body.checkOperand m') = .ok () ∧
        Body.checkCall m' i = .ok () := by
      rcases h.split hsplit with ⟨halloca, hnone, -⟩ | ⟨pre', hcode, -, -⟩
      · rw [hnone]
        cases i with
        | alloca slot ty name => exact ⟨rfl, rfl⟩
        | _ => cases halloca
      · have hi : i ∈ b.flow.code q := by simp [hcode]
        exact ⟨forM_eq_ok fun v hv => h.checkOperand hm (h.sound.operands hi hv),
          h.checkCall hm hi⟩
    have hrest := @ih (pre ++ [i]) (by simpa using hsplit)
    rw [List.any_append] at hrest
    unfold Body.checkInstrs
    simp only [h.checkPlace hblk hsplit, hoperands.1, hoperands.2, bind, Except.bind]
    simpa using hrest

/-- A finished and sound draft passes the check. -/
theorem check (h : b.Finished m) (hm : Holds m b m') {ret : Ty} (hret : ret ≠ .void) :
    b.body.check m' ret = .ok () := by
  have hsize : b.body.layout.length = b.body.blocks.size := by
    rw [h.layout.length_eq, Table.length_keys]
  unfold Body.check
  rw [if_neg (fun hne => hne hsize)]
  refine forM_eq_ok ?_
  intro blk hblk
  have hblk := h.mem_laidOut.1 hblk
  have hcode : b.body.code blk.id = [] ++ blk.instrs := Body.code_of_block hblk
  have hinstrs := h.checkInstrs hm hblk hcode
  unfold Body.checkBlock
  simp only [h.checkTerminator hm hret hblk, h.checkTargets hblk, bind, Except.bind]
  exact hinstrs

end Finished

end Builder

end SexprSsa
