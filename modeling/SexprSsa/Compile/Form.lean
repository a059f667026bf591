/-
SexprSsa.Compile.Form — what an expression is.

The form of an expression is what it means before any name is looked up: a
number, a text, a name, an operation, a declaration and so on. The symbol at
the head of a list decides, whatever is in scope. An expression without a
form keeps the reason in its place, so that it is reported only when that
place is reached.
-/
import SexprSsa.Compile.Error
import SexprSsa.Source.Escape

namespace SexprSsa

/-! ## Type names -/

/-- The type of a variable that is declared without one. -/
def defaultTy : Ty := .i32

/-- The type that a name denotes. An unknown name denotes the default type, unless type names
are strict. -/
def resolveTy (strict : Bool) (name : String) : Except FormFault Ty :=
  match name with
  | "number" => .ok .i32
  | "string" => .ok .bytes
  | name => if strict then .error (.unknownType name) else .ok defaultTy

/-! ## Keywords -/

/-- What a symbol means at the head of a list. -/
inductive Keyword where
  | arith (op : ArithOp)
  | compare (cond : Cond)
  | declare
  | assign
  | block
  | print
  | choose
  deriving DecidableEq, Repr

/-- The keyword that a symbol is. -/
def Keyword.ofTag? : String → Option Keyword
  | "+" => some (.arith .add)
  | "-" => some (.arith .sub)
  | "*" => some (.arith .mul)
  | "/" => some (.arith .div)
  | ">" => some (.compare .gt)
  | "<" => some (.compare .lt)
  | "==" => some (.compare .eq)
  | "!=" => some (.compare .ne)
  | ">=" => some (.compare .ge)
  | "<=" => some (.compare .le)
  | "var" => some .declare
  | "set" => some .assign
  | "begin" => some .block
  | "printf" => some .print
  | "if" => some .choose
  | _ => none

/-! ## Forms -/

/-- What an expression is. -/
inductive Form where
  | number (value : Int32)
  | truth (value : Bool)
  | text (value : String)
  | reference (name : String)
  | arith (op : ArithOp) (left right : Form)
  | compare (cond : Cond) (left right : Form)
  | declare (name : String) (ty : Ty) (init : Form)
  | assign (name : String) (value : Form)
  | block (first : Form) (rest : List Form)
  | print (template : Form) (args : List Form)
  | choose (condition yes no : Form)
  | malformed (fault : FormFault)
  deriving Repr

namespace Form

instance : Inhabited Form := ⟨.number 0⟩

/-- The form of a number: its lower 32 bits, if the others are only a sign. -/
def ofNumber (n : Int64) : Form :=
  let value := n.toInt
  if -0x80000000 ≤ value ∧ value < 0x100000000 then .number (Int32.ofInt value)
  else .malformed (.literalTooLarge n)

/-- The form of a symbol that is not at the head of a list. -/
def ofSymbol : String → Form
  | "true" => .truth true
  | "false" => .truth false
  | name => .reference name

/-- The name and the type that a declaration's target gives. -/
def declaredBy (strict : Bool) : Expr → Except FormFault (String × Ty)
  | .symbol name => .ok (name, defaultTy)
  | .list [.symbol name, .symbol ty] => do return (name, ← resolveTy strict ty)
  | .list [a, b] => .error (.target (.notSymbols (.list [a, b])))
  | .list parts => .error (.target (.notPair (.list parts)))
  | target => .error (.target (.notName target))

/-- The form of an operand list of the wrong length. -/
def wrongArity (tag : String) (expected : Arity) (operands : List Expr) : Form :=
  .malformed (.arity tag expected operands.length)

mutual

/-- The form of an expression. -/
def ofExpr (strict : Bool) : Expr → Form
  | .number n => ofNumber n
  | .text raw => .text (unescape raw)
  | .symbol name => ofSymbol name
  | .list [] => .malformed (.unknownForm "()")
  | .list (.symbol tag :: operands) =>
      match Keyword.ofTag? tag with
      | none => .malformed (.unknownForm tag)
      | some (.arith op) =>
          match operands with
          | [left, right] => .arith op (ofExpr strict left) (ofExpr strict right)
          | operands => wrongArity tag (.exactly 2) operands
      | some (.compare cond) =>
          match operands with
          | [left, right] => .compare cond (ofExpr strict left) (ofExpr strict right)
          | operands => wrongArity tag (.exactly 2) operands
      | some .declare =>
          match operands with
          | [target, init] =>
              match declaredBy strict target with
              | .ok (name, ty) => .declare name ty (ofExpr strict init)
              | .error fault => .malformed fault
          | operands => wrongArity tag (.exactly 2) operands
      | some .assign =>
          match operands with
          | [.symbol name, value] => .assign name (ofExpr strict value)
          | [target, _] => .malformed (.target (.notVariable target))
          | operands => wrongArity tag (.exactly 2) operands
      | some .block =>
          match operands with
          | first :: rest => .block (ofExpr strict first) (ofExprs strict rest)
          | [] => wrongArity tag (.atLeast 1) []
      | some .print =>
          match operands with
          | template :: args => .print (ofExpr strict template) (ofExprs strict args)
          | [] => wrongArity tag (.atLeast 1) []
      | some .choose =>
          match operands with
          | [condition, yes, no] =>
              .choose (ofExpr strict condition) (ofExpr strict yes) (ofExpr strict no)
          | operands => wrongArity tag (.exactly 3) operands
  | .list (head :: _) => .malformed (.unknownForm head.render)

/-- The forms of a list of expressions. -/
def ofExprs (strict : Bool) : List Expr → List Form
  | [] => []
  | e :: rest => ofExpr strict e :: ofExprs strict rest

end

end Form

end SexprSsa
