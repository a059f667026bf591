/-
SexprSsa.Proofs.InstrCodec — persisted instructions read back.

Types, constants, operands, instructions, terminators and blocks are encoded
exactly, provided that the numbers in them have 32 bits; `Fits` says so for
each of them.

Main statement: `Block.exact`.
-/
import SexprSsa.Ir.Codec.Instr
import SexprSsa.Proofs.JsonCodec
import Mathlib.Tactic.Tauto

namespace SexprSsa

open Json

/-! ## Numbers of things -/

theorem number_iff {α : Type} {make : Nat → α} {n : Nat} {y : α} :
    (nat32? (ofNat n)).map make = some y ↔ make n = y ∧ n < 2 ^ 32 := by
  simp only [Option.map_eq_some_iff, nat32?_ofNat_iff]
  constructor
  · rintro ⟨_, ⟨rfl, hn⟩, rfl⟩
    exact ⟨rfl, hn⟩
  · rintro ⟨rfl, hn⟩
    exact ⟨n, ⟨rfl, hn⟩, rfl⟩

@[simp] theorem ValueId.ofJson?_iff {id y : ValueId} :
    ValueId.ofJson? (ofNat id.index) = some y ↔ id = y ∧ id.index < 2 ^ 32 :=
  number_iff

@[simp] theorem SlotId.ofJson?_iff {id y : SlotId} :
    SlotId.ofJson? (ofNat id.index) = some y ↔ id = y ∧ id.index < 2 ^ 32 :=
  number_iff

@[simp] theorem GlobalId.ofJson?_iff {id y : GlobalId} :
    GlobalId.ofJson? (ofNat id.index) = some y ↔ id = y ∧ id.index < 2 ^ 32 :=
  number_iff

@[simp] theorem StrId.ofJson?_iff {id y : StrId} :
    StrId.ofJson? (ofNat id.index) = some y ↔ id = y ∧ id.index < 2 ^ 32 :=
  number_iff

@[simp] theorem BlockId.ofJson?_iff {id y : BlockId} :
    BlockId.ofJson? (ofNat id.index) = some y ↔ id = y ∧ id.index < 2 ^ 32 :=
  number_iff

/-! ## Types, constants and operands -/

theorem Ty.exact : Exact Ty.toJson Ty.ofJson? (fun _ => True) where
  plain ty := by
    induction ty with
    | ptr pointee ih => exact plain_tagged _ ih
    | _ => exact plain_ofText _
  decode_iff {ty y depth} := by
    induction ty generalizing y depth with
    | ptr pointee ih =>
      rw [Ty.toJson, depth_tagged]
      cases depth with
      | zero => simp [Ty.ofJson?, tagged]
      | succ depth => simp [Ty.ofJson?, tagged, Option.bind_eq_some_iff, ih, and_comm]
    | _ => simp [Ty.toJson, Ty.ofJson?, ofText, Ty.named?, Json.depth]

theorem Constant.exact : Exact Constant.toJson Constant.ofJson? (fun _ => True) where
  plain c := by
    cases c <;> exact plain_tagged _ trivial
  decode_iff {c y depth} := by
    cases depth <;> cases c <;> simp [Constant.toJson, Constant.ofJson?, payload?]

/-- The number in an operand has 32 bits. -/
def Operand.Fits : Operand → Prop
  | .const _ | .func _ => True
  | .temp id => id.index < 2 ^ 32
  | .slot id => id.index < 2 ^ 32
  | .global id => id.index < 2 ^ 32
  | .str id => id.index < 2 ^ 32

theorem Operand.exact : Exact Operand.toJson Operand.ofJson? Operand.Fits where
  plain o := by
    cases o with
    | const c => exact plain_tagged _ (Constant.exact.plain c)
    | func name => exact plain_tagged _ (plain_ofText name)
    | _ => exact plain_tagged _ trivial
  decode_iff {o y depth} := by
    cases depth <;> cases o <;>
      simp [Operand.toJson, Operand.ofJson?, Operand.Fits, payload?, Option.map_eq_some_iff,
        Constant.exact.decode_iff, and_assoc, and_comm]

/-! ## Instructions -/

theorem ArithOp.exact : Exact ArithOp.toJson ArithOp.ofJson? (fun _ => True) where
  plain op := by
    cases op <;> exact plain_ofText _
  decode_iff {op y depth} := by
    cases op <;> simp [ArithOp.toJson, ArithOp.ofJson?, plain?]

theorem Cond.exact : Exact Cond.toJson Cond.ofJson? (fun _ => True) where
  plain cond := by
    cases cond <;> exact plain_ofText _
  decode_iff {cond y depth} := by
    cases cond <;> simp [Cond.toJson, Cond.ofJson?, plain?]

theorem incoming_exact : Exact incomingToJson incomingOfJson?
    (fun entry => entry.1.Fits ∧ entry.2.index < 2 ^ 32) where
  plain entry := plain_array (by simp [Operand.exact.plain])
  decode_iff {entry y depth} := by
    cases depth with
    | zero => simp [incomingToJson, incomingOfJson?, pair?]
    | succ depth =>
      simp [incomingToJson, incomingOfJson?, pair?, Option.bind_eq_some_iff,
        Operand.exact.decode_iff]
      tauto

namespace Instr

/-- The numbers in an instruction have 32 bits. -/
def Fits : Instr → Prop
  | .alloca slot _ _ => slot.index < 2 ^ 32
  | .load result _ address => result.index < 2 ^ 32 ∧ address.Fits
  | .store address value => address.Fits ∧ value.Fits
  | .arith result _ left right | .compare result _ left right =>
      result.index < 2 ^ 32 ∧ left.Fits ∧ right.Fits
  | .call result _ args => result.index < 2 ^ 32 ∧ ∀ arg ∈ args, arg.Fits
  | .phi result _ incoming =>
      result.index < 2 ^ 32 ∧ ∀ entry ∈ incoming, entry.1.Fits ∧ entry.2.index < 2 ^ 32

theorem plain_toJson (i : Instr) : Plain i.toJson := by
  cases i with
  | alloca slot ty name =>
    exact plain_tagged _ (plain_record (by simp [Ty.exact.plain]))
  | load result ty address =>
    exact plain_tagged _ (plain_record (by simp [Ty.exact.plain, Operand.exact.plain]))
  | store address value =>
    exact plain_tagged _ (plain_record (by simp [Operand.exact.plain]))
  | arith result op left right =>
    exact plain_tagged _ (plain_record (by simp [ArithOp.exact.plain, Operand.exact.plain]))
  | compare result cond left right =>
    exact plain_tagged _ (plain_record (by simp [Cond.exact.plain, Operand.exact.plain]))
  | call result callee args =>
    exact plain_tagged _ (plain_record (by simp [Operand.exact.list.plain]))
  | phi result ty incoming =>
    exact plain_tagged _ (plain_record (by simp [Ty.exact.plain, incoming_exact.list.plain]))

theorem exact : Exact Instr.toJson Instr.ofJson? Instr.Fits where
  plain := plain_toJson
  decode_iff {i y depth} := by
    -- the object of the kind and the record of the fields take a level each
    obtain _ | _ | depth := depth
    · cases i <;> simp [Instr.toJson, Instr.ofJson?]
    · cases i <;> rw [Instr.toJson, Instr.ofJson?, variant?_tagged_bind] <;>
        simp [payload?, allocaOfJson?, loadOfJson?, storeOfJson?,
          arithOfJson?, compareOfJson?, callOfJson?, phiOfJson?]
    cases i with
    | alloca slot ty name =>
      rw [Instr.toJson, Instr.ofJson?, variant?_tagged_bind]
      simp [payload?, allocaOfJson?, Option.bind_eq_some_iff,
        Ty.exact.decode_iff, Fits]
      tauto
    | load result ty address =>
      rw [Instr.toJson, Instr.ofJson?, variant?_tagged_bind]
      simp [payload?, loadOfJson?, Option.bind_eq_some_iff,
        Ty.exact.decode_iff, Operand.exact.decode_iff, Fits]
      tauto
    | store address value =>
      rw [Instr.toJson, Instr.ofJson?, variant?_tagged_bind]
      simp [payload?, storeOfJson?, Option.bind_eq_some_iff,
        Operand.exact.decode_iff, Fits]
      tauto
    | arith result op left right =>
      rw [Instr.toJson, Instr.ofJson?, variant?_tagged_bind]
      simp [payload?, arithOfJson?, Option.bind_eq_some_iff,
        ArithOp.exact.decode_iff, Operand.exact.decode_iff, Fits]
      tauto
    | compare result cond left right =>
      rw [Instr.toJson, Instr.ofJson?, variant?_tagged_bind]
      simp [payload?, compareOfJson?, Option.bind_eq_some_iff,
        Cond.exact.decode_iff, Operand.exact.decode_iff, Fits]
      tauto
    | call result callee args =>
      rw [Instr.toJson, Instr.ofJson?, variant?_tagged_bind]
      simp [payload?, callOfJson?, Option.bind_eq_some_iff,
        Operand.exact.list.decode_iff, Fits]
      tauto
    | phi result ty incoming =>
      rw [Instr.toJson, Instr.ofJson?, variant?_tagged_bind]
      simp [payload?, phiOfJson?, Option.bind_eq_some_iff,
        Ty.exact.decode_iff, incoming_exact.list.decode_iff, Fits]
      tauto

end Instr

/-! ## Blocks -/

/-- The numbers in a terminator have 32 bits. -/
def Terminator.Fits : Terminator → Prop
  | .jump target => target.index < 2 ^ 32
  | .branch condition yes no => condition.Fits ∧ yes.index < 2 ^ 32 ∧ no.index < 2 ^ 32
  | .ret value => ∀ operand ∈ value, operand.Fits
  | .missing => True

theorem Operand.toJson_ne_null (o : Operand) : o.toJson ≠ .null := by
  cases o <;> simp [Operand.toJson, tagged]

theorem Terminator.exact : Exact Terminator.toJson Terminator.ofJson? Terminator.Fits where
  plain t := by
    cases t with
    | jump target => exact plain_tagged _ (plain_ofNat _)
    | branch condition yes no =>
      exact plain_tagged _ (plain_record (by simp [Operand.exact.plain]))
    | ret value =>
      cases value with
      | none => exact plain_tagged _ plain_null
      | some value => exact plain_tagged _ (Operand.exact.plain value)
    | missing => exact plain_ofText _
  decode_iff {t y depth} := by
    cases t with
    | jump target =>
      cases depth <;> simp [toJson, ofJson?, payload?, Fits, and_comm]
    | branch condition yes no =>
      obtain _ | _ | depth := depth
      · simp [toJson, ofJson?]
      · simp [toJson, ofJson?, payload?, branchOfJson?]
      · simp [toJson, ofJson?, payload?, branchOfJson?, Option.bind_eq_some_iff,
          Operand.exact.decode_iff, Fits]
        tauto
    | ret value =>
      cases depth <;> cases value <;>
        simp [toJson, ofJson?, payload?, Operand.exact.nullable_iff,
          Operand.toJson_ne_null, Fits, and_assoc, and_comm]
    | missing => simp [toJson, ofJson?, plain?, Fits]

/-- The numbers in a block have 32 bits. -/
def Block.Fits (b : Block) : Prop :=
  b.id.index < 2 ^ 32 ∧ (∀ i ∈ b.instrs, i.Fits) ∧ b.terminator.Fits

theorem Block.exact : Exact Block.toJson Block.ofJson? Block.Fits where
  plain b := plain_record (by simp [Instr.exact.list.plain, Terminator.exact.plain])
  decode_iff {b y depth} := by
    obtain ⟨id, name, instrs, terminator⟩ := b
    cases depth with
    | zero => simp [toJson, ofJson?]
    | succ depth =>
      simp [toJson, ofJson?, Option.bind_eq_some_iff, Instr.exact.list.decode_iff,
        Terminator.exact.decode_iff, Fits]
      tauto

end SexprSsa
