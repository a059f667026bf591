/-
SexprSsa.Proofs.Lowering — what lowering keeps.

While a program is lowered the draft is open and sound, and every name in
scope refers to something that exists (`LowerState.Sound`). Each step keeps
this. It also keeps at hand what was computed: a value that every path to the
cursor had computed before the step has been computed on every path to the
cursor after it, wherever the cursor has gone (`LowerState.Reaches`).

Main statement: `Form.lower_reaches`. Lowering any form in a sound state either
leads to a sound state and a usable operand or fails for a reason that lies in
the program; the builder never refuses an operation.
-/
import SexprSsa.Proofs.SoundDraft
import SexprSsa.Compile.Lower

namespace SexprSsa

/-- The module, the draft and the names of a compilation fit together. -/
structure LowerState.Sound (pending : List BlockId) (s : LowerState) : Prop where
  opened : s.builder.Open pending
  sound : s.builder.Sound s.module
  /-- Strings are numbered by position. -/
  strings : ∀ {i : Nat} {c : StrConst}, s.module.strings[i]? = some c → c.id = ⟨i⟩
  functions : s.module.functions =
    (∅ : Table String Func).insert printName (.declared printSignature)
  names : ∀ {name binding}, s.scopes.lookup? name = some binding →
    binding.Known s.module s.builder

/-- The value of an operand is known wherever control stands at the cursor. -/
structure Operand.Usable (s : LowerState) (v : Operand) : Prop where
  known : v.Known s.module s.builder
  settled : ∀ w, v = .temp w → s.builder.flow.Settled s.builder.cursor.block w

/-- `s'` comes of `s` by lowering something. -/
structure LowerState.Reaches (pending : List BlockId) (s s' : LowerState) : Prop where
  sound : s'.Sound pending
  module : s.module.Grows s'.module
  builder : s.builder.Grows s'.builder
  settled : ∀ {v}, s.builder.flow.Settled s.builder.cursor.block v →
    s'.builder.flow.Settled s'.builder.cursor.block v

namespace LowerState

variable {pending waiting : List BlockId} {s s' s'' : LowerState}

theorem Reaches.refl (h : s.Sound pending) : s.Reaches pending s :=
  ⟨h, .refl _, .refl h.opened, id⟩

theorem Reaches.trans (hs : s.Sound pending) {waiting' : List BlockId}
    (h : s.Reaches waiting s') (h' : s'.Reaches waiting' s'') : s.Reaches waiting' s'' where
  sound := h'.sound
  module := h.module.trans h'.module
  builder := h.builder.trans hs.opened h'.builder
  settled hv := h'.settled (h.settled hv)

theorem Reaches.usable (hs : s.Sound pending) (h : s.Reaches waiting s') {v : Operand}
    (hv : v.Usable s) : v.Usable s' where
  known := hv.known.mono h.module (h.builder.covers hs.opened)
  settled w hw := h.settled (hv.settled w hw)

/-- A builder that grew gives a state that reaches, if what was settled stays so. -/
theorem Sound.reaches_builder (h : s.Sound pending) {b : Builder} (ho : b.Open waiting)
    (hb : b.Sound s.module) (hg : s.builder.Grows b)
    (hsettled : ∀ {v}, s.builder.flow.Settled s.builder.cursor.block v →
      b.flow.Settled b.cursor.block v) : s.Reaches waiting { s with builder := b } where
  sound :=
    { opened := ho
      sound := hb
      strings := h.strings
      functions := h.functions
      names := fun hname => (h.names hname).mono (.refl _) (hg.covers h.opened) }
  module := .refl _
  builder := hg
  settled := hsettled

/-! ## Instructions, variables and strings -/

/-- What is settled stays settled when an instruction is put behind it. -/
theorem Sound.settled_put (h : s.Sound pending) (i : Instr) {q : BlockId} {v : ValueId}
    (hv : s.builder.flow.Settled q v) : (s.builder.put i).flow.Settled q v := by
  rw [h.opened.flow_put]
  exact (Flow.keeps_append ..).settled trivial hv

theorem Sound.put (h : s.Sound pending) {i : Instr} (hi : s.builder.Accepts s.module i) :
    s.Reaches pending { s with builder := s.builder.put i } :=
  h.reaches_builder (h.opened.put i) (h.sound.put h.opened hi) (h.opened.grows_put i)
    fun hv => h.settled_put i hv

theorem Sound.draw (h : s.Sound pending) :
    s.Reaches pending { s with builder := s.builder.draw } :=
  h.reaches_builder h.opened.draw
    (h.sound.of_flow rfl (Nat.le_refl _) (Nat.le_succ _) (h.opened.grows_draw.covers h.opened))
    h.opened.grows_draw id

/-- An instruction other than a phi or an allocation may be put where its operands are usable. -/
theorem accepts_of_usable {i : Instr} (hphi : i.isPhi = false)
    (hplain : i.isAlloca = false)
    (hcalls : ∀ r callee args, i = .call r callee args → callee = printName ∧ args ≠ [])
    (hoperands : ∀ v ∈ i.operands, v.Usable s)
    (hfresh : ∀ v, i.result? = some v → v.index < s.builder.body.nextValue ∧
      ∀ q, v ∉ results (s.builder.flow.code q)) : s.builder.Accepts s.module i where
  fits :=
    { uses := fun _ v hv => (hoperands _ hv).settled v rfl
      place := fun he => by simp [hphi] at he
      sources := fun r ty incoming he => by simp [he, Instr.isPhi] at hphi
      incoming := fun r ty incoming he => by simp [he, Instr.isPhi] at hphi }
  fresh := hfresh
  operands v hv := (hoperands v hv).known
  plain := hplain
  calls := hcalls

/-- A store can be put where its address and value are usable. -/
theorem Sound.store (h : s.Sound pending) {address value : Operand} (ha : address.Usable s)
    (hv : value.Usable s) :
    s.Reaches pending { s with builder := s.builder.put (.store address value) } := by
  refine h.put (accepts_of_usable rfl rfl ?_ ?_ ?_)
  · rintro r callee args ⟨⟩
  · simp [Instr.operands, ha, hv]
  · simp [Instr.result?]

/-- The number of the next value has not been used. -/
theorem Sound.fresh_value (h : s.Sound pending) (q : BlockId) :
    ⟨s.builder.body.nextValue⟩ ∉ results (s.builder.flow.code q) := by
  intro hv
  exact Nat.lt_irrefl _ (h.sound.drawn hv)

/-- An instruction that computes a new value can be put where its operands are usable, and then
its value is usable. -/
theorem Sound.compute (h : s.Sound pending) {i : ValueId → Instr}
    (hresult : ∀ r, (i r).result? = some r)
    (hi : s.builder.draw.Accepts s.module (i ⟨s.builder.body.nextValue⟩)) :
    s.Reaches pending { s with builder := s.builder.putValue i } ∧
      (Operand.temp ⟨s.builder.body.nextValue⟩).Usable
        { s with builder := s.builder.putValue i } := by
  refine ⟨h.draw.trans h (h.draw.sound.put hi), ?_, ?_⟩
  · refine ⟨s.builder.cursor.block, ?_⟩
    simp [h.opened.flow_putValue, results, hresult]
  · rintro w ⟨⟩
    refine .inl ?_
    change _ ∈ results ((s.builder.putValue i).flow.code s.builder.cursor.block)
    simp [h.opened.flow_putValue, results, hresult]

theorem Sound.compute_plain (h : s.Sound pending) {i : ValueId → Instr}
    (hresult : ∀ r, (i r).result? = some r) (hphi : ∀ r, (i r).isPhi = false)
    (hplain : ∀ r, (i r).isAlloca = false)
    (hcalls : ∀ r r' callee args, i r = .call r' callee args → callee = printName ∧ args ≠ [])
    (hoperands : ∀ r, ∀ v ∈ (i r).operands, v.Usable s) :
    s.Reaches pending { s with builder := s.builder.putValue i } ∧
      (Operand.temp ⟨s.builder.body.nextValue⟩).Usable
        { s with builder := s.builder.putValue i } := by
  refine h.compute hresult (accepts_of_usable (s := { s with builder := s.builder.draw })
    (hphi _) (hplain _) (hcalls _) ?_ ?_)
  · exact fun v hv => h.draw.usable h (hoperands _ v hv)
  · intro v hv
    rw [hresult] at hv
    cases hv
    exact ⟨Nat.lt_succ_self _, h.fresh_value⟩

/-- A variable can be added at any place. -/
theorem Sound.addVariable (h : s.Sound pending) (name : String) (ty : Ty) :
    s.Reaches pending { s with builder := s.builder.addVariable name ty } := by
  have hg := h.opened.grows_addVariable name ty
  have hflow := Builder.flow_addVariable h.opened.toShaped name ty
  refine h.reaches_builder (h.opened.addVariable name ty)
    (h.sound.of_flow hflow (Nat.le_refl _) (Nat.le_refl _) (hg.covers h.opened)) hg ?_
  intro v hv
  rw [hflow]
  exact hv

/-- A known binding can be put into scope. -/
theorem Sound.define (h : s.Sound pending) {name : String} {binding : Binding}
    (hb : binding.Known s.module s.builder) :
    s.Reaches pending { s with scopes := s.scopes.define name binding } where
  sound := { h with
    names := fun {other _} hname => by
      rw [Scopes.lookup?_define] at hname
      split at hname
      · cases hname
        exact hb
      · exact h.names hname }
  module := .refl _
  builder := .refl h.opened
  settled := id

/-- The scopes can be replaced by others in which every name is known. -/
theorem Sound.rescope (h : s.Sound pending) {scopes : Scopes}
    (hnames : ∀ {name binding}, scopes.lookup? name = some binding →
      binding.Known s.module s.builder) : s.Reaches pending { s with scopes := scopes } where
  sound := { h with names := hnames }
  module := .refl _
  builder := .refl h.opened
  settled := id

/-- A text becomes a known string. -/
theorem Sound.string (h : s.Sound pending) (value : String) :
    s.Reaches pending { s with module := (s.module.addString value).2 } ∧
      (s.module.addString value).2.string? (s.module.addString value).1 =
        some ⟨(s.module.addString value).1, value⟩ := by
  have hcovers := (Builder.Grows.refl h.opened).covers h.opened
  unfold Module.addString
  split
  · next c hc =>
    have hvalue : c.value = value := by simpa using List.find?_some hc
    obtain ⟨i, hi⟩ := List.getElem?_of_mem (List.mem_of_find?_eq_some hc)
    have hid := h.strings hi
    refine ⟨.refl h, ?_⟩
    obtain ⟨id, text⟩ := c
    simp only at hid hvalue
    subst hid hvalue
    exact hi
  · have hm : s.module.Grows { s.module with
        strings := s.module.strings ++ [⟨⟨s.module.strings.length⟩, value⟩] } :=
      ⟨rfl, rfl, rfl, List.prefix_append ..⟩
    refine ⟨⟨⟨h.opened, h.sound.grows_module hm hcovers, ?_, h.functions, ?_⟩, hm,
      .refl h.opened, id⟩, ?_⟩
    · intro i c hi
      simp only [List.getElem?_append] at hi
      split at hi
      · exact h.strings hi
      · next hlt =>
        obtain ⟨hzero, rfl⟩ : i - s.module.strings.length = 0 ∧
            (⟨⟨s.module.strings.length⟩, value⟩ : StrConst) = c := by
          rw [List.getElem?_singleton] at hi
          split at hi
          · next hz => exact ⟨hz, by simpa using hi⟩
          · cases hi
        have : i = s.module.strings.length := by omega
        rw [this]
    · exact fun hname => (h.names hname).mono hm hcovers
    · simp [Module.string?]

end LowerState

end SexprSsa
