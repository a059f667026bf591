/-
SexprSsa.Compile.Error — why a program does not compile.

An expression may have no form: an unknown tag, a wrong number of operands,
a target that is none, a type name that is not known, a number that does not
fit. That shows without looking at anything else. The other causes depend on
what is in scope, or on the module that is put together.
-/
import SexprSsa.Source.Reader
import SexprSsa.Ir.Error

namespace SexprSsa

/-- How many operands a form takes. -/
inductive Arity where
  | exactly (count : Nat)
  | atLeast (count : Nat)
  deriving DecidableEq, Repr

/-- The wording of a number of operands. -/
def Arity.wording : Arity → String
  | .exactly count => toString count
  | .atLeast count => s!"at least {count}"

/-- Why the target of a declaration or an assignment is none. -/
inductive TargetFault where
  | notSymbols (target : Expr)
  | notPair (target : Expr)
  | notName (target : Expr)
  | notVariable (target : Expr)
  deriving DecidableEq, Repr

/-- The tag of the form that the target belongs to. -/
def TargetFault.tag : TargetFault → String
  | .notVariable _ => "set"
  | _ => "var"

/-- The wording of a fault in a target. -/
def TargetFault.reason : TargetFault → String
  | .notSymbols target => s!"name and type must be symbols in {target.render}"
  | .notPair target => s!"typed declaration needs exactly (name type), found {target.render}"
  | .notName target => s!"expected a name, found {target.render}"
  | .notVariable target => s!"expected a variable name, found {target.render}"

/-- Why an expression has no form. -/
inductive FormFault where
  | unknownForm (shown : String)
  | arity (tag : String) (expected : Arity) (found : Nat)
  | target (fault : TargetFault)
  | unknownType (name : String)
  | literalTooLarge (value : Int64)
  deriving DecidableEq, Repr

/-- The wording of a fault in an expression. -/
def FormFault.message : FormFault → String
  | .unknownForm shown => s!"Unknown form: {shown}"
  | .arity tag expected found =>
      s!"`{tag}` expects {expected.wording} operand(s), found {found}"
  | .target fault => s!"Invalid `{fault.tag}` target: {fault.reason}"
  | .unknownType name => s!"Unknown type: {name}"
  | .literalTooLarge value => s!"Number literal {value.toInt} does not fit in 32 bits"

/-- Why a program does not compile. -/
inductive CompileError where
  | unreadable (error : ReadError)
  | malformed (fault : FormFault)
  | unboundName (name : String)
  | notAssignable (name : String)
  /-- The print function is used but not declared. -/
  | notDeclared (name : String)
  | ir (error : IrError)
  deriving DecidableEq, Repr

/-- The wording of an error. -/
def CompileError.message : CompileError → String
  | .unreadable error => error.message
  | .malformed fault => fault.message
  | .unboundName name => s!"Unbound name: {name}"
  | .notAssignable name => s!"Cannot assign to `{name}`: it is not a variable"
  | .notDeclared name => s!"Extern function `{name}` is not declared"
  | .ir error => s!"IR error: {error.message}"

end SexprSsa
