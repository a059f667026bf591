/-
SexprSsa.Ir.Error — what can go wrong while a module is put together.

A fault of construction stops a builder's operation, a flaw is what the
check of a finished function finds first, and a symbol can be defined only
once. Each is a cause; its wording is in one place.
-/
import SexprSsa.Ir.Instr

namespace SexprSsa

/-- Why an operation on a function under construction fails. -/
inductive BuildError where
  /-- The block to continue in does not exist. -/
  | noSuchBlock (block : BlockId)
  /-- The cursor stands in a block that does not exist. -/
  | cursorAstray (block : BlockId)
  | alreadyTerminated (block : BlockId)
  | notLaidOut (block : BlockId)
  | notTerminated (block : BlockId) (name : String)
  /-- The function is only declared. -/
  | noBody (function : String)
  deriving DecidableEq, Repr

/-- The wording of a fault of construction. -/
def BuildError.message : BuildError → String
  | .noSuchBlock b => s!"Block {b} does not exist"
  | .cursorAstray b => s!"Block {b} not found"
  | .alreadyTerminated b => s!"Block {b} is already terminated"
  | .notLaidOut b => s!"Block {b} is not laid out"
  | .notTerminated b name => s!"Block {b} ({name}) is not terminated"
  | .noBody function => s!"Function {function} has no body"

/-- What the check of a function rejects. -/
inductive Flaw where
  | layoutSize (listed existing : Nat)
  | unterminated (block : BlockId) (name : String)
  | returnsFromVoid (block : BlockId)
  | returnsNothing (block : BlockId) (ty : Ty)
  | undefinedValue (value : ValueId)
  | unknownSlot (slot : SlotId)
  | unknownGlobal (global : GlobalId)
  | unknownString (string : StrId)
  | unknownFunction (name : String)
  | missingTarget (block target : BlockId)
  | latePhi (block : BlockId)
  | strangePredecessor (block source : BlockId)
  | neglectedPredecessor (block source : BlockId)
  | strayAlloca (block : BlockId)
  | undeclaredCallee (name : String)
  | wrongArity (callee : String) (count : Nat)
  deriving DecidableEq, Repr

/-- The wording of a flaw. -/
def Flaw.message : Flaw → String
  | .layoutSize listed existing =>
      s!"layout lists {listed} blocks but the function has {existing}"
  | .unterminated b name => s!"{b} ({name}) is not terminated"
  | .returnsFromVoid b => s!"{b} returns a value from a void function"
  | .returnsNothing b ty => s!"{b} returns nothing from a {ty} function"
  | .undefinedValue v => s!"use of undefined value {v}"
  | .unknownSlot s => s!"use of unknown slot {s}"
  | .unknownGlobal g => s!"use of unknown global {g}"
  | .unknownString s => s!"use of unknown string {s}"
  | .unknownFunction name => s!"reference to unknown function {name}"
  | .missingTarget b target => s!"{b} branches to missing {target}"
  | .latePhi b => s!"phi after a non-phi instruction in {b}"
  | .strangePredecessor b source => s!"phi in {b} names {source} which is not a predecessor"
  | .neglectedPredecessor b source => s!"phi in {b} has no incoming value for {source}"
  | .strayAlloca b => s!"alloca outside the entry block in {b}"
  | .undeclaredCallee name => s!"call to undeclared function {name}"
  | .wrongArity callee count => s!"call to {callee} with {count} arguments"

/-- Why a module cannot be put together. -/
inductive IrError where
  | build (error : BuildError)
  | flawed (function : String) (flaw : Flaw)
  | duplicateSymbol (name : String)
  deriving DecidableEq, Repr

/-- The wording of an error. -/
def IrError.message : IrError → String
  | .build error => s!"Builder error: {error.message}"
  | .flawed function flaw => s!"Verification failed in function `{function}`: {flaw.message}"
  | .duplicateSymbol name => s!"Duplicate symbol: {name}"

end SexprSsa
