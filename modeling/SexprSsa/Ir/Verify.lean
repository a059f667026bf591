/-
SexprSsa.Ir.Verify — the check of finished functions.

The check walks the layout of a body and reports the first flaw it meets: a
block without terminator, a return that does not fit the signature, a target
that does not exist, a phi out of place or out of step with the block's
predecessors, an allocation outside the entry block, an operand that names
nothing, a call that cannot be made. Every operand must be defined somewhere
in the function; that it is defined before its use is not looked at.
-/
import SexprSsa.Ir.Module

namespace SexprSsa

namespace Body

/-- The values that some instruction of a body computes. -/
def definedValues (body : Body) : List ValueId :=
  body.blocks.values.flatMap fun b => b.instrs.filterMap Instr.result?

/-- Checks that an operand names something. -/
def checkOperand (body : Body) (m : Module) : Operand → Except Flaw Unit
  | .const _ => .ok ()
  | .temp v => if v ∈ body.definedValues then .ok () else .error (.undefinedValue v)
  | .slot s => if (body.slot? s).isSome then .ok () else .error (.unknownSlot s)
  | .global g => if (m.global? g).isSome then .ok () else .error (.unknownGlobal g)
  | .str s => if (m.string? s).isSome then .ok () else .error (.unknownString s)
  | .func name => if (m.func? name).isSome then .ok () else .error (.unknownFunction name)

/-- Checks the operands that a terminator takes. -/
def checkTerminator (body : Body) (m : Module) (ret : Ty) (b : Block) : Except Flaw Unit :=
  match b.terminator with
  | .missing => .error (.unterminated b.id b.name)
  | .ret (some value) =>
      if ret = .void then .error (.returnsFromVoid b.id) else body.checkOperand m value
  | .ret none => if ret = .void then .ok () else .error (.returnsNothing b.id ret)
  | .branch condition _ _ => body.checkOperand m condition
  | .jump _ => .ok ()

/-- Checks that the blocks that may come next exist. -/
def checkTargets (body : Body) (b : Block) : Except Flaw Unit :=
  b.successors.forM fun target =>
    if (body.block? target).isSome then .ok () else .error (.missingTarget b.id target)

/-- Checks that a phi names each predecessor of its block and nothing else. -/
def checkIncoming (body : Body) (block : BlockId) (incoming : List (Operand × BlockId)) :
    Except Flaw Unit := do
  let predecessors := body.predecessors block
  incoming.forM fun (_, source) =>
    if source ∈ predecessors then .ok () else .error (.strangePredecessor block source)
  predecessors.forM fun source =>
    if source ∈ incoming.map Prod.snd then .ok () else .error (.neglectedPredecessor block source)

/-- Checks the place of an instruction; `late` says whether another than a phi came before. -/
def checkPlace (body : Body) (b : Block) (late : Bool) : Instr → Except Flaw Unit
  | .phi _ _ incoming =>
      if late then .error (.latePhi b.id) else body.checkIncoming b.id incoming
  | .alloca .. => if b.id = body.entry then .ok () else .error (.strayAlloca b.id)
  | _ => .ok ()

/-- Checks that a call can be made. -/
def checkCall (m : Module) : Instr → Except Flaw Unit
  | .call _ callee args =>
      match m.func? callee with
      | none => .error (.undeclaredCallee callee)
      | some f =>
          if f.signature.accepts args.length then .ok ()
          else .error (.wrongArity callee args.length)
  | _ => .ok ()

/-- Checks the instructions of a block, from a point where `late` is known. -/
def checkInstrs (body : Body) (m : Module) (b : Block) (late : Bool) :
    List Instr → Except Flaw Unit
  | [] => .ok ()
  | instr :: rest => do
      body.checkPlace b late instr
      instr.operands.forM (body.checkOperand m)
      checkCall m instr
      checkInstrs body m b (late || !instr.isPhi) rest

/-- Checks a block. -/
def checkBlock (body : Body) (m : Module) (ret : Ty) (b : Block) : Except Flaw Unit := do
  body.checkTerminator m ret b
  body.checkTargets b
  body.checkInstrs m b false b.instrs

/-- Checks a body: the layout must list as many blocks as there are, and each be in order. -/
def check (body : Body) (m : Module) (ret : Ty) : Except Flaw Unit :=
  if body.layout.length ≠ body.blocks.size then
    .error (.layoutSize body.layout.length body.blocks.size)
  else body.laidOut.forM (body.checkBlock m ret)

end Body

/-- Checks a function of a module; a declaration cannot be checked. -/
def Module.verifyFunc (m : Module) (f : Func) : Except IrError Unit :=
  match f.definition with
  | .error e => .error (.build e)
  | .ok body => (body.check m f.signature.ret).mapError (.flawed f.name)

/-- Checks every defined function of a module. -/
def Module.verify (m : Module) : Except IrError Unit := m.defined.forM m.verifyFunc

end SexprSsa
