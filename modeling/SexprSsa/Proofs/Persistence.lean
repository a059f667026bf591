/-
SexprSsa.Proofs.Persistence — persisted data is not lost.

Functions and modules, expressions and options are encoded exactly. A module
is refused only where its numbers do not have 32 bits or where it nests too
deep, which takes a type of very many pointers.

Main statement: `persistence_lossless`.
-/
import SexprSsa.Ir.Codec.Module
import SexprSsa.Compile.Options
import SexprSsa.Source.Codec
import SexprSsa.Proofs.InstrCodec

namespace SexprSsa

open Json

/-! ## Bodies -/

/-- The number of a slot has 32 bits. -/
def StackSlot.Fits (s : StackSlot) : Prop := s.id.index < 2 ^ 32

theorem StackSlot.exact : Exact StackSlot.toJson StackSlot.ofJson? StackSlot.Fits where
  plain s := plain_record (by simp [Ty.exact.plain])
  decode_iff {s y depth} := by
    obtain ⟨id, name, ty⟩ := s
    cases depth with
    | zero => simp [toJson, ofJson?]
    | succ depth =>
      simp [toJson, ofJson?, Option.bind_eq_some_iff, Ty.exact.decode_iff, Fits]
      tauto

theorem BlockId.ofKey?_iff {id y : BlockId} :
    BlockId.ofKey? (escape id.index.repr) = some y ↔ id = y ∧ id.index < 2 ^ 32 := by
  have hnumber : number? id.index.repr.toList = some (ofNat id.index, []) := by
    have hends : EndsNumber [] := by simp [EndsNumber]
    have h := number?_toString id.index hends
    rw [List.append_nil] at h
    exact h
  rw [escape_repr, BlockId.ofKey?, hnumber]
  exact BlockId.ofJson?_iff

theorem Body.blocks_exact : Exact
    (fun blocks : Table BlockId Block =>
      record (blocks.entries.map fun e => (e.1.index.repr, e.2.toJson)))
    (table? BlockId.ofKey? Block.ofJson?)
    (fun blocks => ∀ e ∈ blocks.entries, e.1.index < 2 ^ 32 ∧ e.2.Fits) :=
  Block.exact.table BlockId.ofKey?_iff

theorem BlockId.exact : Exact (fun id => ofNat id.index) (fun _ => BlockId.ofJson?)
    (fun id => id.index < 2 ^ 32) where
  plain _ := plain_ofNat _
  decode_iff := by simp

/-- The numbers in a body have 32 bits. -/
def Body.Fits (body : Body) : Prop :=
  body.entry.index < 2 ^ 32 ∧
  (∀ e ∈ body.blocks.entries, e.1.index < 2 ^ 32 ∧ e.2.Fits) ∧
  (∀ id ∈ body.layout, id.index < 2 ^ 32) ∧
  (∀ s ∈ body.slots, s.Fits) ∧
  body.nextBlock < 2 ^ 32 ∧ body.nextValue < 2 ^ 32

theorem Body.exact : Exact Body.toJson Body.ofJson? Body.Fits where
  plain body := by
    refine plain_record ?_
    have hblocks := Body.blocks_exact.plain body.blocks
    simp [hblocks, StackSlot.exact.list.plain, BlockId.exact.list.plain]
  decode_iff {body y depth} := by
    obtain ⟨entry, blocks, layout, slots, nextBlock, nextValue⟩ := body
    cases depth with
    | zero => simp [toJson, ofJson?]
    | succ depth =>
      simp [toJson, ofJson?, Option.bind_eq_some_iff, Body.blocks_exact.decode_iff,
        BlockId.exact.list.decode_iff, StackSlot.exact.list.decode_iff, nat32?_ofNat_iff, Fits]
      tauto

/-! ## Functions -/

theorem Signature.exact : Exact Signature.toJson Signature.ofJson? (fun _ => True) where
  plain s := plain_record (by simp [Ty.exact.plain, Ty.exact.list.plain])
  decode_iff {s y depth} := by
    obtain ⟨name, params, ret, variadic⟩ := s
    cases depth with
    | zero => simp [toJson, ofJson?]
    | succ depth =>
      simp [toJson, ofJson?, Option.bind_eq_some_iff, Ty.exact.decode_iff, Ty.exact.list.decode_iff]
      tauto

/-- The numbers in a function have 32 bits. -/
def Func.Fits (f : Func) : Prop := ∀ body ∈ f.body, body.Fits

theorem Body.toJson_ne_null (body : Body) : body.toJson ≠ .null := by
  simp [Body.toJson, record]

theorem Func.exact : Exact Func.toJson Func.ofJson? Func.Fits where
  plain f := by
    obtain ⟨signature, body⟩ := f
    cases body <;> exact plain_record (by simp [Signature.exact.plain, Body.exact.plain])
  decode_iff {f y depth} := by
    obtain ⟨signature, body⟩ := f
    cases depth with
    | zero => simp [toJson, ofJson?]
    | succ depth =>
      cases body with
      | none =>
        simp [toJson, ofJson?, Option.bind_eq_some_iff, Signature.exact.decode_iff, orDefault, Fits]
        tauto
      | some body =>
        simp [toJson, ofJson?, Option.bind_eq_some_iff, Signature.exact.decode_iff, orDefault, Fits,
          Body.exact.nullable_iff, Body.toJson_ne_null]
        tauto

/-! ## Modules -/

/-- The numbers in a variable have 32 bits. -/
def GlobalVar.Fits (var : GlobalVar) : Prop := var.id.index < 2 ^ 32 ∧ var.align < 2 ^ 32

theorem GlobalVar.exact : Exact GlobalVar.toJson GlobalVar.ofJson? GlobalVar.Fits where
  plain var := plain_record (by simp [Ty.exact.plain, Constant.exact.plain])
  decode_iff {var y depth} := by
    obtain ⟨id, name, ty, initial, isConstant, align⟩ := var
    cases depth with
    | zero => simp [toJson, ofJson?]
    | succ depth =>
      simp [toJson, ofJson?, Option.bind_eq_some_iff, Ty.exact.decode_iff,
        Constant.exact.decode_iff, nat32?_ofNat_iff, Fits]
      tauto

/-- The number of a string has 32 bits. -/
def StrConst.Fits (s : StrConst) : Prop := s.id.index < 2 ^ 32

theorem StrConst.exact : Exact StrConst.toJson StrConst.ofJson? StrConst.Fits where
  plain s := plain_record (by simp)
  decode_iff {s y depth} := by
    obtain ⟨id, value⟩ := s
    cases depth with
    | zero => simp [toJson, ofJson?]
    | succ depth =>
      simp [toJson, ofJson?, Option.bind_eq_some_iff, Fits]
      tauto

/-- The numbers in a module have 32 bits. -/
def Module.Fits (m : Module) : Prop :=
  (∀ e ∈ m.globals.entries, e.2.Fits) ∧ (∀ s ∈ m.strings, s.Fits) ∧
  (∀ e ∈ m.functions.entries, e.2.Fits)

/-- Tables keyed by names. -/
theorem named_exact {α : Type} {encode : α → Json} {decode : Nat → Json → Option α}
    {fits : α → Prop} (h : Exact encode decode fits) :
    Exact (fun t : Table String α => record (t.entries.map fun e => (e.1, encode e.2)))
      (table? unescape? decode) (fun t => ∀ e ∈ t.entries, True ∧ fits e.2) := by
  have hkey : ∀ {k k' : String}, unescape? (escape k) = some k' ↔ k = k' ∧ True := by simp
  exact h.table hkey

theorem Module.exact : Exact Module.toJson Module.ofJson? Module.Fits where
  plain m := by
    refine plain_record ?_
    have hglobals := (named_exact GlobalVar.exact).plain m.globals
    have hfunctions := (named_exact Func.exact).plain m.functions
    simp [hglobals, hfunctions, StrConst.exact.list.plain]
  decode_iff {m y depth} := by
    obtain ⟨name, globals, strings, functions⟩ := m
    cases depth with
    | zero => simp [toJson, ofJson?]
    | succ depth =>
      simp [toJson, ofJson?, Option.bind_eq_some_iff, (named_exact GlobalVar.exact).decode_iff,
        (named_exact Func.exact).decode_iff, StrConst.exact.list.decode_iff, Fits]
      tauto

/-! ## Expressions -/

namespace Tree

mutual

theorem plain_toJson : ∀ e : Expr, Plain e.toJson
  | .number _ => plain_tagged _ (plain_integer _)
  | .text _ => plain_tagged _ (plain_ofText _)
  | .symbol _ => plain_tagged _ (plain_ofText _)
  | .list items => plain_tagged _ (plain_array (plain_toJsonAll items))

theorem plain_toJsonAll : ∀ (items : List Expr), ∀ item ∈ toJsonAll items, Plain item
  | [] => by simp [toJsonAll]
  | e :: rest => by
    have he := plain_toJson e
    have hrest := plain_toJsonAll rest
    simp only [toJsonAll, List.forall_mem_cons]
    exact ⟨he, hrest⟩

end

mutual

theorem ofJson?_toJson : ∀ (e : Expr) {y : Expr} {depth : Nat},
    ofJson? depth e.toJson = some y ↔ e = y ∧ e.toJson.depth ≤ depth
  | .number n, y, depth => by
    cases depth <;> simp [toJson, ofJson?, tagged, Json.depth, Json.depthMembers]
  | .text raw, y, depth => by
    cases depth <;>
      simp [toJson, ofJson?, tagged, ofText, text?, Json.depth, Json.depthMembers]
  | .symbol name, y, depth => by
    cases depth <;>
      simp [toJson, ofJson?, tagged, ofText, text?, Json.depth, Json.depthMembers]
  | .list items, y, depth => by
    have hitems : ∀ {result : List Expr} {depth : Nat},
        (toJsonAll items).mapM (ofJson? depth) = some result ↔
          items = result ∧ ∀ item ∈ toJsonAll items, item.depth ≤ depth :=
      mapM_toJsonAll items
    rw [toJson, depth_tagged]
    obtain _ | _ | depth := depth
    · simp [ofJson?]
    · simp [ofJson?, tagged]
    · simp [ofJson?, tagged, hitems, and_comm]

theorem mapM_toJsonAll : ∀ (items : List Expr) {result : List Expr} {depth : Nat},
    (toJsonAll items).mapM (ofJson? depth) = some result ↔
      items = result ∧ ∀ item ∈ toJsonAll items, item.depth ≤ depth
  | [], result, depth => by simp [toJsonAll]
  | e :: rest, result, depth => by
    have he : ∀ {y : Expr}, ofJson? depth e.toJson = some y ↔ e = y ∧ e.toJson.depth ≤ depth :=
      ofJson?_toJson e
    have hrest : ∀ {result : List Expr}, (toJsonAll rest).mapM (ofJson? depth) = some result ↔
        rest = result ∧ ∀ item ∈ toJsonAll rest, item.depth ≤ depth :=
      mapM_toJsonAll rest
    simp only [toJsonAll, List.mapM_cons, Option.bind_eq_bind, Option.bind_eq_some_iff, he, hrest,
      List.forall_mem_cons, Option.pure_def, Option.some.injEq]
    constructor
    · rintro ⟨_, ⟨rfl, hdepth⟩, _, ⟨rfl, hdepths⟩, rfl⟩
      exact ⟨rfl, hdepth, hdepths⟩
    · rintro ⟨rfl, hdepth, hdepths⟩
      exact ⟨e, ⟨rfl, hdepth⟩, rest, ⟨rfl, hdepths⟩, rfl⟩

end

end Tree

/-! ## Options -/

theorem GlobalOption.exact : Exact GlobalOption.toJson GlobalOption.ofJson? (fun _ => True) where
  plain g := plain_record (by simp)
  decode_iff {g y depth} := by
    obtain ⟨name, value⟩ := g
    cases depth with
    | zero => simp [toJson, ofJson?]
    | succ depth => simp [toJson, ofJson?, and_comm]

theorem Options.exact : Exact Options.toJson Options.ofJson? (fun _ => True) where
  plain o := plain_record (by simp [GlobalOption.exact.list.plain])
  decode_iff {o y depth} := by
    obtain ⟨moduleName, entry, globals, strict⟩ := o
    cases depth with
    | zero => simp [toJson, ofJson?]
    | succ depth =>
      simp [toJson, ofJson?, orDefault, Option.bind_eq_some_iff, GlobalOption.exact.list.decode_iff]
      tauto

/-! ## How deep a module nests

Apart from its types a module nests at most thirteen deep, down to a constant
among the entries of a phi. A type stands at most nine deep, in an
instruction, and nests by itself as often as it says pointer. -/

/-- How many pointers a type goes through. -/
def Ty.pointers : Ty → Nat
  | .ptr pointee => pointee.pointers + 1
  | _ => 0

/-- The types that an instruction names. -/
def Instr.types : Instr → List Ty
  | .alloca _ ty _ | .load _ ty _ | .phi _ ty _ => [ty]
  | _ => []

/-- The types that a body names. -/
def Body.types (body : Body) : List Ty :=
  body.slots.map StackSlot.ty ++ body.blocks.values.flatMap fun b => b.instrs.flatMap Instr.types

/-- The types that a function names. -/
def Func.types (f : Func) : List Ty :=
  f.signature.ret :: (f.signature.params ++ (f.body.map Body.types).getD [])

/-- The types that a module names. -/
def Module.types (m : Module) : List Ty :=
  m.globals.values.map GlobalVar.ty ++ m.functions.values.flatMap Func.types

@[simp] theorem Ty.depth_toJson (ty : Ty) : ty.toJson.depth = ty.pointers := by
  induction ty with
  | ptr pointee ih => rw [Ty.toJson, depth_tagged, ih, Ty.pointers]
  | _ => rfl

theorem Constant.depth_toJson (c : Constant) : c.toJson.depth = 1 := by
  cases c <;> simp [Constant.toJson]

theorem Operand.depth_toJson (o : Operand) : o.toJson.depth ≤ 2 := by
  cases o <;> simp [Operand.toJson, Constant.depth_toJson]

section
variable {k : Nat}

theorem Instr.depth_toJson {i : Instr} (h : ∀ ty ∈ i.types, ty.pointers ≤ k + 4) :
    i.toJson.depth ≤ k + 6 := by
  have hoperand : ∀ (o : Operand) (n : Nat), o.toJson.depth ≤ n + 2 := fun o n =>
    Nat.le_trans o.depth_toJson (by omega)
  cases i with
  | alloca slot ty name => simpa [Instr.toJson, Instr.types] using h
  | load result ty address => simpa [Instr.toJson, Instr.types, hoperand] using h
  | store address value => simp [Instr.toJson, hoperand]
  | arith result op left right => cases op <;> simp [Instr.toJson, ArithOp.toJson, hoperand]
  | compare result cond left right => cases cond <;> simp [Instr.toJson, Cond.toJson, hoperand]
  | call result callee args => simp [Instr.toJson, hoperand]
  | phi result ty incoming =>
    have hentries : ∀ e ∈ incoming, (incomingToJson e).depth ≤ k + 3 := fun e _ => by
      simp [incomingToJson, hoperand]
    have hty : ty.pointers ≤ k + 4 := h ty (by simp [Instr.types])
    rw [Instr.toJson, depth_tagged, Nat.add_le_add_iff_right, depth_record_le_succ]
    simp only [List.forall_mem_cons, depth_ofNat, Ty.depth_toJson, depth_array_le_succ,
      List.forall_mem_map]
    exact ⟨by omega, hty, hentries, by simp⟩

theorem Block.depth_toJson {b : Block}
    (h : ∀ i ∈ b.instrs, ∀ ty ∈ i.types, ty.pointers ≤ k + 4) : b.toJson.depth ≤ k + 8 := by
  have hinstrs : ∀ i ∈ b.instrs, i.toJson.depth ≤ k + 6 := fun i hi => Instr.depth_toJson (h i hi)
  have hterminator : b.terminator.toJson.depth ≤ k + 7 := by
    cases b.terminator with
    | ret value =>
      cases value with
      | none => simp [Terminator.toJson]
      | some o => simpa [Terminator.toJson] using Nat.le_trans o.depth_toJson (by omega)
    | jump target => simp [Terminator.toJson]
    | branch condition yes no =>
      simpa [Terminator.toJson] using Nat.le_trans condition.depth_toJson (by omega)
    | missing => simp [Terminator.toJson]
  simpa [Block.toJson, hterminator] using hinstrs

theorem Body.depth_toJson {body : Body} (h : ∀ ty ∈ body.types, ty.pointers ≤ k + 4) :
    body.toJson.depth ≤ k + 10 := by
  simp only [Body.types, List.forall_mem_append, List.forall_mem_map, List.mem_flatMap] at h
  have hslots : ∀ s ∈ body.slots, s.toJson.depth ≤ k + 8 := by
    intro s hs
    have hty := h.1 s hs
    simp [StackSlot.toJson]
    omega
  have hblocks : ∀ e ∈ body.blocks.entries, e.2.toJson.depth ≤ k + 8 := by
    intro e he
    refine Block.depth_toJson fun i hi ty hty => h.2 ty ⟨e.2, ?_, i, hi, hty⟩
    exact List.mem_map_of_mem he
  refine depth_record_le_succ.2 ?_
  simp only [List.forall_mem_cons, depth_ofNat, depth_record_le_succ, depth_array_le_succ,
    List.forall_mem_map]
  exact ⟨by omega, hblocks, by simp, hslots, by omega, by omega, by simp⟩

theorem Func.depth_toJson {f : Func} (h : ∀ ty ∈ f.types, ty.pointers ≤ k + 4) :
    f.toJson.depth ≤ k + 11 := by
  obtain ⟨signature, body⟩ := f
  simp only [Func.types, List.forall_mem_cons, List.forall_mem_append] at h
  obtain ⟨hret, hparams, hbody⟩ := h
  have hsignature : signature.toJson.depth ≤ k + 10 := by
    refine depth_record_le_succ.2 ?_
    simp only [List.forall_mem_cons, depth_ofText, depth_array_le_succ, List.forall_mem_map,
      Ty.depth_toJson, depth_bool]
    exact ⟨by omega, fun ty hty => Nat.le_trans (hparams ty hty) (by omega), by omega, by omega,
      by simp⟩
  cases body with
  | none => simp [Func.toJson, hsignature]
  | some body => simpa [Func.toJson, hsignature] using Body.depth_toJson hbody

/-- Without its types a module nests at most thirteen deep. -/
theorem Module.depth_toJson {m : Module} (h : ∀ ty ∈ m.types, ty.pointers ≤ k + 4) :
    m.toJson.depth ≤ k + 13 := by
  simp only [Module.types, List.forall_mem_append, List.forall_mem_map, List.mem_flatMap] at h
  have hglobals : ∀ e ∈ m.globals.entries, e.2.toJson.depth ≤ k + 11 := by
    intro e he
    have hty := h.1 e.2 (List.mem_map_of_mem he)
    refine depth_record_le_succ.2 ?_
    simp only [List.forall_mem_cons, depth_ofText, depth_ofNat, Ty.depth_toJson,
      Constant.depth_toJson, depth_bool]
    exact ⟨by omega, by omega, by omega, by omega, by omega, by omega, by simp⟩
  have hstrings : ∀ s ∈ m.strings, s.toJson.depth ≤ k + 11 := by
    intro s _
    simp [StrConst.toJson]
  have hfunctions : ∀ e ∈ m.functions.entries, e.2.toJson.depth ≤ k + 11 := by
    intro e he
    exact Func.depth_toJson fun ty hty => h.2 ty ⟨e.2, List.mem_map_of_mem he, hty⟩
  refine depth_record_le_succ.2 ?_
  simp only [List.forall_mem_cons, depth_ofText, depth_record_le_succ, depth_array_le_succ,
    List.forall_mem_map]
  exact ⟨by omega, hglobals, hstrings, hfunctions, by simp⟩

end

theorem Options.depth_toJson (o : Options) : o.toJson.depth ≤ 3 := by
  simp [Options.toJson, GlobalOption.toJson]

/-! ## What is persisted comes back -/

/-- **The persisted form loses nothing.** The text of a module is JSON; it reads back as that
very module, its tables in their order, exactly if arrays and objects nest at most 127 deep
and the numbers in the module have 32 bits, and as nothing else. It cannot nest deeper unless
a type in the module has more than 118 pointers. The compact text of an expression reads back
exactly if it nests at most 127 deep, and the text of options always does. -/
theorem persistence_lossless :
    (∀ m : Module, parse? m.save = some m.toJson ∧
      (∀ n, Module.load? m.save = some n ↔ m = n ∧ m.toJson.depth ≤ nestingLimit ∧ m.Fits) ∧
      (m.toJson.depth ≤ nestingLimit ∨ ∃ ty ∈ m.types, 118 < ty.pointers)) ∧
    (∀ e : Expr, parse? (compact e.toJson) = some e.toJson ∧
      ∀ f, decode? Tree.ofJson? (compact e.toJson) = some f ↔
        e = f ∧ e.toJson.depth ≤ nestingLimit) ∧
    (∀ o : Options, Options.load? o.save = some o) := by
  refine ⟨fun m => ?_, fun e => ?_, fun o => ?_⟩
  · have hparse : parse? m.save = some m.toJson := parse?_pretty (Module.exact.plain m)
    refine ⟨hparse, fun n => ?_, ?_⟩
    · rw [Module.load?, decode?, hparse, Option.bind_some]
      exact Module.exact.decode_iff
    · by_cases hdeep : ∃ ty ∈ m.types, 118 < ty.pointers
      · exact .inr hdeep
      · have hshallow : ∀ ty ∈ m.types, ty.pointers ≤ 114 + 4 := fun ty hty =>
          Nat.not_lt.1 fun h => hdeep ⟨ty, hty, h⟩
        exact .inl (Module.depth_toJson hshallow)
  · have hparse : parse? (compact e.toJson) = some e.toJson := parse?_compact e.plain_toJson
    refine ⟨hparse, fun f => ?_⟩
    rw [decode?, hparse, Option.bind_some]
    exact Tree.ofJson?_toJson e
  · have hparse : parse? o.save = some o.toJson := parse?_pretty (Options.exact.plain o)
    have hdepth : o.toJson.depth ≤ nestingLimit := Nat.le_trans o.depth_toJson (by decide)
    rw [Options.load?, decode?, hparse, Option.bind_some]
    exact Options.exact.decode_iff.2 ⟨rfl, hdepth, trivial⟩

end SexprSsa
