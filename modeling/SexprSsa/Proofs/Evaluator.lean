/-
SexprSsa.Proofs.Evaluator — a direct evaluator of expressions.

The evaluator reads an expression from left to right and knows nothing of
instructions, blocks or slots. A variable is a cell with a number; names refer
to cells, to the configured variables or to the entry function. A computation
fails with a cause, or leaves a datum and a world.

A conditional does not open a scope. What that means for the branch that is
not taken is a parameter: its declarations may count, so that their names refer
to cells that stay empty (`lexical`), or they may leave nothing (`dynamic`).
-/
import SexprSsa.Source.Tree
import SexprSsa.Source.Escape

namespace SexprSsa.Direct

/-! ## Data -/

/-- What an expression evaluates to. -/
inductive Datum where
  | int (value : Int32)
  | bool (value : Bool)
  | text (value : String)
  /-- The entry function, which can be named but not used. -/
  | function
  deriving DecidableEq, Repr

/-- Why an evaluation fails. -/
inductive Failure where
  | emptyCell (cell : Nat)
  | functionAsValue
  | notNumber
  | notText
  | divisionByZero
  | danglingPercent
  | missingArgument (conversion : Char)
  | unsupported (conversion : Char)
  | unboundName (name : String)
  | notAssignable (name : String)
  | malformed
  deriving DecidableEq, Repr

namespace Datum

/-- The datum, unless it is the function. -/
def use : Datum → Except Failure Datum
  | .function => .error .functionAsValue
  | d => .ok d

/-- The number that a datum stands for in arithmetic. -/
def number : Datum → Except Failure Int32
  | .int value => .ok value
  | .bool value => .ok (if value then 1 else 0)
  | .text _ => .error .notNumber
  | .function => .error .functionAsValue

/-- Whether a condition counts as true; every text does. -/
def truth : Datum → Except Failure Bool
  | .int value => .ok (value != 0)
  | .bool value => .ok value
  | .text _ => .ok true
  | .function => .error .functionAsValue

/-- The text that a datum is. -/
def string : Datum → Except Failure String
  | .text value => .ok value
  | .function => .error .functionAsValue
  | _ => .error .notText

end Datum

/-- A number is wrapped to 32 bits. -/
def wrap (n : Int) : Int32 := Int32.ofInt n

/-- The 32 bits of a number, read without a sign. -/
def pattern (n : Int32) : Nat := n.toUInt32.toNat

/-- What an operator makes of two numbers. -/
def operate (tag : String) (a b : Int32) : Except Failure Datum :=
  match tag with
  | "+" => .ok (.int (wrap (a.toInt + b.toInt)))
  | "-" => .ok (.int (wrap (a.toInt - b.toInt)))
  | "*" => .ok (.int (wrap (a.toInt * b.toInt)))
  | "/" => if b.toInt = 0 then .error .divisionByZero else .ok (.int (wrap (a.toInt.tdiv b.toInt)))
  | ">" => .ok (.bool (pattern a > pattern b))
  | "<" => .ok (.bool (pattern a < pattern b))
  | ">=" => .ok (.bool (pattern a ≥ pattern b))
  | "<=" => .ok (.bool (pattern a ≤ pattern b))
  | "==" => .ok (.bool (pattern a = pattern b))
  | "!=" => .ok (.bool (pattern a ≠ pattern b))
  | _ => .error .malformed

/-! ## Printing -/

/-- The text of an argument under a conversion. -/
def convert (conversion : Char) (d : Datum) : Except Failure (List Char) :=
  match conversion with
  | 'd' | 'i' => do return (toString (← d.number).toInt).toList
  | 'u' => do return Nat.toDigits 10 (pattern (← d.number))
  | 'x' => do return Nat.toDigits 16 (pattern (← d.number))
  | 'c' => do return [Char.ofNat (pattern (← d.number) % 256)]
  | 's' => do return (← d.string).toList
  | other => .error (.unsupported other)

/-- The text that a format makes of its arguments. -/
def format : List Char → List Datum → Except Failure (List Char)
  | [], _ => .ok []
  | '%' :: [], _ => .error .danglingPercent
  | '%' :: '%' :: rest, args => do return '%' :: (← format rest args)
  | '%' :: conversion :: _, [] => .error (.missingArgument conversion)
  | '%' :: conversion :: rest, d :: args => do
      let text ← convert conversion d
      return text ++ (← format rest args)
  | c :: rest, args => do return c :: (← format rest args)

/-- What is printed for a format and its arguments; none of them may be the function. -/
def printed (template : Datum) (args : List Datum) : Except Failure String := do
  let _ ← (template :: args).mapM Datum.use
  let template ← template.string
  return String.ofList (← format template.toList args)

/-! ## Worlds -/

/-- What a name refers to. -/
inductive Place where
  | cell (number : Nat)
  | global (number : Nat)
  | function
  deriving DecidableEq, Repr

/-- Names, cells and configured variables, and what has been printed. -/
structure World where
  names : String → Option Place
  cells : Nat → Option Datum
  /-- The number of the next cell. -/
  next : Nat
  globals : Nat → Datum
  output : String

namespace World

/-- The value that a name stands for. -/
def value (w : World) (name : String) : Except Failure Datum :=
  match w.names name with
  | none => .error (.unboundName name)
  | some (.cell k) =>
      match w.cells k with
      | some d => .ok d
      | none => .error (.emptyCell k)
  | some (.global i) => .ok (w.globals i)
  | some .function => .ok .function

/-- The name refers to the next cell, which stays empty. -/
def reserve (w : World) (name : String) : World :=
  { w with
    names := fun other => if other = name then some (.cell w.next) else w.names other
    next := w.next + 1 }

/-- A cell is filled. -/
def fill (w : World) (k : Nat) (d : Datum) : World :=
  { w with cells := fun other => if other = k then some d else w.cells other }

/-- The name refers to a new cell, which is filled. -/
def declare (w : World) (name : String) (d : Datum) : Except Failure World := do
  return (w.reserve name).fill w.next (← d.use)

/-- The variable that a name refers to gets a value. -/
def assign (w : World) (name : String) (d : Datum) : Except Failure World :=
  match w.names name with
  | none => .error (.unboundName name)
  | some (.cell k) => do return w.fill k (← d.use)
  | some (.global i) => do
      let d ← d.use
      return { w with globals := fun other => if other = i then d else w.globals other }
  | some .function => .error (.notAssignable name)

end World

/-! ## Expressions -/

/-- The name that a declaration's target gives; a type makes no difference. -/
def targetName? : Expr → Option String
  | .symbol name | .list [.symbol name, .symbol _] => some name
  | _ => none

mutual

/-- What is left of an expression that is passed over: the names that it declares outside a block
refer to cells of their own, which stay empty. -/
def pass : Expr → World → World
  | .list [.symbol "var", target, init], w =>
      match targetName? target with
      | some name => (pass init w).reserve name
      | none => w
  | .list (.symbol "begin" :: operands), w => { passAll operands w with names := w.names }
  | .list (.symbol _ :: operands), w => passAll operands w
  | _, w => w

/-- What is left of expressions that are passed over. -/
def passAll : List Expr → World → World
  | [], w => w
  | e :: rest, w => passAll rest (pass e w)

end

/-- Whether the declarations in a branch that is not taken count. -/
inductive Scoping where
  | lexical
  | dynamic
  deriving DecidableEq, Repr

/-- The world after a branch that is not taken. -/
def skip : Scoping → Expr → World → World
  | .lexical, e, w => pass e w
  | .dynamic, _, w => w

mutual

/-- Evaluates an expression. -/
def eval (σ : Scoping) : Expr → World → Except Failure (Datum × World)
  | .number n, w => .ok (.int (wrap n.toInt), w)
  | .text raw, w => .ok (.text (unescape raw), w)
  | .symbol "true", w => .ok (.bool true, w)
  | .symbol "false", w => .ok (.bool false, w)
  | .symbol name, w => do return (← w.value name, w)
  | .list [.symbol "var", target, init], w => do
      let (d, w) ← eval σ init w
      match targetName? target with
      | some name => return (d, ← w.declare name d)
      | none => throw .malformed
  | .list [.symbol "set", .symbol name, e], w => do
      let (d, w) ← eval σ e w
      return (d, ← w.assign name d)
  | .list (.symbol "begin" :: first :: rest), w => do
      let (d, w') ← eval σ first w
      let (ds, w') ← evalAll σ rest w'
      return (ds.getLastD d, { w' with names := w.names })
  | .list (.symbol "printf" :: template :: args), w => do
      let (t, w) ← eval σ template w
      let (ds, w) ← evalAll σ args w
      let text ← printed t ds
      return (.int (wrap text.utf8ByteSize), { w with output := w.output ++ text })
  | .list [.symbol "if", condition, yes, no], w => do
      let (d, w) ← eval σ condition w
      if ← d.truth then
        let (d, w) ← eval σ yes w
        return (← d.use, skip σ no w)
      else
        let (d, w) ← eval σ no (skip σ yes w)
        return (← d.use, w)
  | .list [.symbol tag, left, right], w => do
      let (a, w) ← eval σ left w
      let (b, w) ← eval σ right w
      return (← operate tag (← a.number) (← b.number), w)
  | _, _ => .error .malformed

/-- Evaluates expressions from left to right. -/
def evalAll (σ : Scoping) : List Expr → World → Except Failure (List Datum × World)
  | [], w => .ok ([], w)
  | e :: rest, w => do
      let (d, w) ← eval σ e w
      let (ds, w) ← evalAll σ rest w
      return (d :: ds, w)

end

end SexprSsa.Direct
