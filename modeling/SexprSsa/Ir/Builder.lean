/-
SexprSsa.Ir.Builder — putting a function together.

A builder holds the body so far and a cursor that says where the next
instruction goes: at the start of a block, at its end, or after one of its
instructions. Slots are an exception; their allocations are sunk to the top
of the entry block, in order, wherever the cursor stands.

An operation may fail and leaves the builder as it was, apart from the
number of a value that was drawn for the instruction and stays unused.
-/
import SexprSsa.Ir.Module

namespace SexprSsa

/-! ## Cursors -/

/-- A place for the next instruction. -/
inductive Cursor where
  | blockStart (block : BlockId)
  | blockEnd (block : BlockId)
  | after (block : BlockId) (index : Nat)
  deriving DecidableEq, Repr

namespace Cursor

/-- The block in which a cursor stands. -/
def block : Cursor → BlockId
  | .blockStart b | .blockEnd b | .after b _ => b

/-- Whether a cursor stands at the end of its block. -/
def isEnd : Cursor → Bool
  | .blockEnd _ => true
  | _ => false

/-- Puts an instruction into a list at the cursor; the cursor moves behind it. -/
def place (cursor : Cursor) (instr : Instr) (instrs : List Instr) : List Instr × Cursor :=
  match cursor with
  | .blockStart b => (instr :: instrs, .after b 0)
  | .blockEnd b => (instrs ++ [instr], .blockEnd b)
  | .after b index =>
      let position := min (index + 1) instrs.length
      (instrs.insertIdx position instr, .after b position)

@[simp] theorem block_place (cursor : Cursor) (instr : Instr) (instrs : List Instr) :
    (cursor.place instr instrs).2.block = cursor.block := by
  cases cursor <;> rfl

/-- An instruction that is put in is added to the others, which stay. -/
theorem place_perm (cursor : Cursor) (instr : Instr) (instrs : List Instr) :
    (cursor.place instr instrs).1.Perm (instr :: instrs) := by
  cases cursor with
  | blockStart b => exact .refl _
  | blockEnd b => exact List.perm_append_singleton ..
  | after b index => exact List.perm_insertIdx instr instrs (Nat.min_le_right ..)

/-- The instructions that were there keep their order. -/
theorem sublist_place (cursor : Cursor) (instr : Instr) (instrs : List Instr) :
    instrs.Sublist (cursor.place instr instrs).1 := by
  cases cursor with
  | blockStart b => exact List.sublist_cons_self ..
  | blockEnd b => exact List.sublist_append_left ..
  | after b index =>
    have h := List.eraseIdx_sublist (instrs.insertIdx (min (index + 1) instrs.length) instr)
      (min (index + 1) instrs.length)
    rwa [List.eraseIdx_insertIdx_self] at h

end Cursor

/-! ## Builders -/

/-- A function under construction. -/
structure Builder where
  signature : Signature
  body : Body
  cursor : Cursor
  /-- How many allocations have been sunk to the top of the entry block. -/
  sunk : Nat
  deriving DecidableEq

/-- An operation on a builder. Its effects up to a failure remain. -/
abbrev Build := ExceptT BuildError (StateM Builder)

namespace Builder

/-- A builder with an open entry block and the cursor at its end. -/
def start (signature : Signature) : Builder :=
  ⟨signature, .initial, .blockEnd ⟨0⟩, 0⟩

/-- Whether the block of the cursor has its terminator; a block that does not exist has none. -/
def isTerminated (b : Builder) : Bool :=
  match b.body.block? b.cursor.block with
  | some block => block.isTerminated
  | none => false

/-- The builder with an instruction put in at the cursor. -/
def inserted (b : Builder) (instr : Instr) : Except BuildError Builder :=
  let id := b.cursor.block
  match b.body.block? id with
  | none => .error (.cursorAstray id)
  | some block =>
      if block.isTerminated ∧ b.cursor.isEnd then .error (.alreadyTerminated id)
      else
        let (instrs, cursor) := b.cursor.place instr block.instrs
        .ok { b with body := b.body.modifyBlock id fun block => { block with instrs }, cursor }

/-- The builder with an allocation put in after those that were sunk before. -/
def sinkAlloca (b : Builder) (instr : Instr) : Except BuildError Builder :=
  let id := b.body.entry
  match b.body.block? id with
  | none => .error (.cursorAstray id)
  | some block =>
      let position := min b.sunk block.instrs.length
      let instrs := block.instrs.insertIdx position instr
      .ok { b with
        body := b.body.modifyBlock id fun block => { block with instrs }
        sunk := b.sunk + 1 }

/-- The builder with the block of the cursor ended. -/
def sealed (b : Builder) (terminator : Terminator) : Except BuildError Builder :=
  let id := b.cursor.block
  match b.body.block? id with
  | none => .error (.cursorAstray id)
  | some block =>
      if block.isTerminated then .error (.alreadyTerminated id)
      else .ok { b with body := b.body.modifyBlock id fun block => { block with terminator } }

/-- The finished function; every block must have its terminator. -/
def finish (b : Builder) : Except BuildError Func :=
  match b.body.openBlock? with
  | some block => .error (.notTerminated block.id block.name)
  | none => .ok ⟨b.signature, some b.body⟩

end Builder

/-! ## Operations -/

namespace Build

/-- Replaces the builder, or fails and keeps it. -/
def update (f : Builder → Except BuildError Builder) : Build Unit := fun b =>
  match f b with
  | .ok b' => (.ok (), b')
  | .error e => (.error e, b)

theorem update_of_ok {f : Builder → Except BuildError Builder} {b b' : Builder}
    (h : f b = .ok b') : update f b = (.ok (), b') := by
  simp only [update, h]

/-- An update that fails keeps the builder. -/
theorem update_of_error {f : Builder → Except BuildError Builder} {b : Builder} {e : BuildError}
    (h : f b = .error e) : update f b = (.error e, b) := by
  simp only [update, h]

/-- Opens a new block and leaves the cursor where it is. -/
def createBlock (name : String) : Build BlockId := fun b =>
  let (id, body) := b.body.createBlock name
  (.ok id, { b with body })

/-- Puts the cursor at the start of a block, which need not exist. -/
def gotoStart (block : BlockId) : Build Unit :=
  update fun b => .ok { b with cursor := .blockStart block }

/-- Puts the cursor at the end of a block, which need not exist. -/
def gotoEnd (block : BlockId) : Build Unit :=
  update fun b => .ok { b with cursor := .blockEnd block }

/-- Puts the cursor at the end of an existing block. -/
def switchTo (block : BlockId) : Build Unit := update fun b =>
  match b.body.block? block with
  | none => .error (.noSuchBlock block)
  | some _ => .ok { b with cursor := .blockEnd block }

/-- The block of the cursor. -/
def currentBlock : Build BlockId := fun b => (.ok b.cursor.block, b)

/-- Lays a block out right after another. -/
def moveAfter (block anchor : BlockId) : Build Unit := update fun b => do
  let body ← b.body.moveAfter block anchor
  return { b with body }

/-- Draws the number of a new value. -/
def freshValue : Build ValueId := fun b =>
  let (value, body) := b.body.freshValue
  (.ok value, { b with body })

/-- Puts an instruction in at the cursor. -/
def insert (instr : Instr) : Build Unit := update fun b => b.inserted instr

/-- Puts in an instruction that computes a new value. -/
def compute (instr : ValueId → Instr) : Build Operand := do
  let result ← freshValue
  insert (instr result)
  return .temp result

/-- An arithmetic operation. -/
def arith (op : ArithOp) (left right : Operand) : Build Operand :=
  compute fun result => .arith result op left right

/-- A comparison. -/
def compare (cond : Cond) (left right : Operand) : Build Operand :=
  compute fun result => .compare result cond left right

/-- A load from an address. -/
def load (ty : Ty) (address : Operand) : Build Operand :=
  compute fun result => .load result ty address

/-- A store to an address. -/
def store (address value : Operand) : Build Unit := insert (.store address value)

/-- A call. -/
def call (callee : String) (args : List Operand) : Build Operand :=
  compute fun result => .call result callee args

/-- A phi. -/
def phi (ty : Ty) (incoming : List (Operand × BlockId)) : Build Operand :=
  compute fun result => .phi result ty incoming

/-- Adds a slot and sinks its allocation to the top of the entry block. -/
def alloca (name : String) (ty : Ty) : Build SlotId := do
  let slot ← fun b =>
    let (slot, body) := b.body.addSlot name ty
    (.ok slot, { b with body })
  update fun b => b.sinkAlloca (.alloca slot ty name)
  return slot

/-- Ends the block of the cursor with a jump. -/
def jump (target : BlockId) : Build Unit := update fun b => b.sealed (.jump target)

/-- Ends the block of the cursor with a branch. -/
def branch (condition : Operand) (yes no : BlockId) : Build Unit :=
  update fun b => b.sealed (.branch condition yes no)

/-- Ends the block of the cursor with a return. -/
def ret (value : Option Operand) : Build Unit := update fun b => b.sealed (.ret value)

end Build

end SexprSsa
