/-
SexprSsa.Compile.Lower — from forms to instructions.

Every form becomes instructions at the builder's cursor and one operand for
its value. A variable lives in a stack slot, so reading it is a load and
assigning it a store. A conditional opens three blocks, for its branches and
for what follows; since a branch may itself end in another block than it
began in, the phi that merges the values names the blocks in which the
branches ended.

Only a block of expressions opens a scope. What was put in up to an error
stays, but scopes that were opened are left.
-/
import SexprSsa.Compile.Form
import SexprSsa.Compile.Scope
import SexprSsa.Ir.Builder

namespace SexprSsa

/-- What lowering works on: the module, the function under construction, the names in scope. -/
structure LowerState where
  module : Module
  builder : Builder
  scopes : Scopes

/-- A step of lowering. Its effects up to an error remain. -/
abbrev Lower := ExceptT CompileError (StateM LowerState)

namespace Lower

/-- Does something to the function under construction. -/
def build {α : Type} (operation : Build α) : Lower α := fun s =>
  match operation s.builder with
  | (.ok a, builder) => (.ok a, { s with builder })
  | (.error e, builder) => (.error (.ir (.build e)), { s with builder })

/-- What a name refers to. -/
def resolve (name : String) : Lower Binding := fun s =>
  match s.scopes.lookup? name with
  | some binding => (.ok binding, s)
  | none => (.error (.unboundName name), s)

/-- Binds a name in the current scope. -/
def define (name : String) (binding : Binding) : Lower Unit := fun s =>
  (.ok (), { s with scopes := s.scopes.define name binding })

/-- Does something in a scope of its own. -/
def inScope {α : Type} (action : Lower α) : Lower α := fun s =>
  let (result, s') := action { s with scopes := s.scopes.push }
  (result, { s' with scopes := s.scopes })

/-- Work on the function under construction leaves the module alone. -/
@[simp] theorem module_build {α : Type} (operation : Build α) (s : LowerState) :
    (build operation s).2.module = s.module := by
  unfold build
  split <;> rfl

/-- Work on the function under construction binds no name. -/
@[simp] theorem scopes_build {α : Type} (operation : Build α) (s : LowerState) :
    (build operation s).2.scopes = s.scopes := by
  unfold build
  split <;> rfl

/-- After a scope of its own, every name refers to what it did before, also after an error. -/
@[simp] theorem scopes_inScope {α : Type} (action : Lower α) (s : LowerState) :
    (inScope action s).2.scopes = s.scopes := rfl

/-- The operand of a text, which becomes a string of the module. -/
def string (value : String) : Lower Operand := fun s =>
  let (id, module) := s.module.addString value
  (.ok (.str id), { s with module })

/-- Fails unless the print function is declared. -/
def requirePrint : Lower Unit := fun s =>
  match s.module.func? printName with
  | some _ => (.ok (), s)
  | none => (.error (.notDeclared printName), s)

/-- The blocks of a conditional. -/
structure Fork where
  yes : BlockId
  no : BlockId
  join : BlockId

/-- Opens the blocks of a conditional and branches to the first. -/
def fork (condition : Operand) : Build Fork := do
  let yes ← Build.createBlock "then"
  let no ← Build.createBlock "else"
  let join ← Build.createBlock "ifend"
  Build.branch condition yes no
  Build.switchTo yes
  return ⟨yes, no, join⟩

/-- Ends a branch of a conditional and goes on in the block that is laid out after it. -/
def closeBranch (join next : BlockId) : Build BlockId := do
  let last ← Build.currentBlock
  Build.jump join
  Build.moveAfter next last
  Build.switchTo next
  return last

/-- Merges the values of the branches; the merged value has the function's result type. -/
def merge (incoming : List (Operand × BlockId)) : Build Operand := do
  let b ← get
  Build.phi b.signature.ret incoming

/-- Reads a variable, or takes the value that a name stands for. -/
def readName (name : String) : Lower Operand := do
  match ← resolve name with
  | .value operand => return operand
  | .slot id ty => build (.load ty (.slot id))
  | .global id ty => build (.load ty (.global id))

/-- Puts a value into a new variable and binds its name. -/
def declareName (name : String) (ty : Ty) (value : Operand) : Lower Unit := do
  let slot ← build (.alloca name ty)
  define name (.slot slot ty)
  build (.store (.slot slot) value)

/-- Assigns a value to the variable that a name refers to. -/
def assignName (name : String) (value : Operand) : Lower Unit := do
  match (← resolve name).address? with
  | some (address, _) => build (.store address value)
  | none => throw (.notAssignable name)

end Lower

open Lower in
mutual

/-- Lowers a form; the operand is its value. -/
def Form.lower : Form → Lower Operand
  | .number value => return .ofInt value
  | .truth value => return .ofBool value
  | .text value => string value
  | .reference name => readName name
  | .arith op left right => do
      let left ← left.lower
      let right ← right.lower
      build (.arith op left right)
  | .compare cond left right => do
      let left ← left.lower
      let right ← right.lower
      build (.compare cond left right)
  | .declare name ty init => do
      let value ← init.lower
      declareName name ty value
      return value
  | .assign name value => do
      let value ← value.lower
      assignName name value
      return value
  | .block first rest =>
      inScope do
        let value ← first.lower
        let values ← lowerAll rest
        return values.getLastD value
  | .print template args => do
      requirePrint
      let template ← template.lower
      let args ← lowerAll args
      build (.call printName (template :: args))
  | .choose condition yes no => do
      let condition ← condition.lower
      let blocks ← build (fork condition)
      let yesValue ← yes.lower
      let yesEnd ← build (closeBranch blocks.join blocks.no)
      let noValue ← no.lower
      let noEnd ← build (closeBranch blocks.join blocks.join)
      build (merge [(yesValue, yesEnd), (noValue, noEnd)])
  | .malformed fault => throw (.malformed fault)

/-- Lowers forms from left to right. -/
def Form.lowerAll : List Form → Lower (List Operand)
  | [] => return []
  | form :: rest => do
      let value ← form.lower
      let values ← lowerAll rest
      return value :: values

end

end SexprSsa
