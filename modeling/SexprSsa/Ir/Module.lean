/-
SexprSsa.Ir.Module — functions and modules.

A module has variables, strings and functions. Variables and functions are
found by name; variables and strings also by number, which is their position.
Equal strings share one entry. A function is declared, without a body, or
defined; a definition may take the place of a declaration with the same
signature and nothing else.
-/
import SexprSsa.Ir.Body

namespace SexprSsa

/-! ## Functions -/

/-- The name, parameters and result of a function. -/
structure Signature where
  name : String
  params : List Ty
  ret : Ty
  variadic : Bool
  deriving DecidableEq, Repr

/-- Whether a function can be called with a number of arguments. -/
def Signature.accepts (s : Signature) (count : Nat) : Bool :=
  if s.variadic then s.params.length ≤ count else count == s.params.length

/-- A function; without a body it is a declaration. -/
structure Func where
  signature : Signature
  body : Option Body
  deriving DecidableEq

/-- The name of the print function, the only one that is provided from outside. -/
def printName : String := "printf"

/-- The print function takes a format and any further arguments. -/
def printSignature : Signature := ⟨printName, [.bytes], .i32, true⟩

namespace Func

/-- The name of a function. -/
def name (f : Func) : String := f.signature.name

/-- A function that is only declared. -/
def declared (signature : Signature) : Func := ⟨signature, none⟩

/-- A function whose body is an open entry block. -/
def empty (signature : Signature) : Func := ⟨signature, some .initial⟩

/-- Whether a function is only declared. -/
def isDeclaration (f : Func) : Bool := f.body.isNone

/-- The body of a defined function. -/
def definition (f : Func) : Except BuildError Body :=
  match f.body with
  | some body => .ok body
  | none => .error (.noBody f.name)

end Func

/-! ## Modules -/

/-- A variable of a module. -/
structure GlobalVar where
  id : GlobalId
  name : String
  ty : Ty
  initial : Constant
  isConstant : Bool
  align : Nat
  deriving DecidableEq, Repr

/-- A string of a module. -/
structure StrConst where
  id : StrId
  value : String
  deriving DecidableEq, Repr

/-- The size of a string in bytes, with the zero byte that ends it. -/
def StrConst.byteSize (s : StrConst) : Nat := s.value.utf8ByteSize + 1

/-- A module. -/
structure Module where
  name : String
  globals : Table String GlobalVar
  strings : List StrConst
  functions : Table String Func
  deriving DecidableEq

namespace Module

/-- A module with a name and nothing in it. -/
def empty (name : String) : Module := ⟨name, ∅, [], ∅⟩

instance : Inhabited Module := ⟨empty ""⟩

/-- The variable with a number. -/
def global? (m : Module) (id : GlobalId) : Option GlobalVar :=
  (m.globals.at? id.index).map Prod.snd

/-- The string with a number. -/
def string? (m : Module) (id : StrId) : Option StrConst := m.strings[id.index]?

/-- The function with a name. -/
def func? (m : Module) (name : String) : Option Func := m.functions.find? name

/-- The functions with a body. -/
def defined (m : Module) : List Func := m.functions.values.filter fun f => !f.isDeclaration

/-- The functions without a body. -/
def declared (m : Module) : List Func := m.functions.values.filter fun f => f.isDeclaration

/-- Adds a variable; its type is that of its initial value. -/
def addGlobal (m : Module) (name : String) (initial : Constant) :
    Except IrError (GlobalId × Module) :=
  if m.globals.contains name then .error (.duplicateSymbol name)
  else
    let id : GlobalId := ⟨m.globals.size⟩
    let var : GlobalVar := ⟨id, name, initial.ty, initial, false, 4⟩
    .ok (id, { m with globals := m.globals.insert name var })

/-- The number of a string, which is added unless it is there. -/
def addString (m : Module) (value : String) : StrId × Module :=
  match m.strings.find? fun s => s.value = value with
  | some s => (s.id, m)
  | none =>
      let id : StrId := ⟨m.strings.length⟩
      (id, { m with strings := m.strings ++ [⟨id, value⟩] })

/-- Declares a function; declaring it again with the same signature changes nothing. -/
def declare (m : Module) (signature : Signature) : Except IrError Module :=
  match m.func? signature.name with
  | some f => if f.signature = signature then .ok m else .error (.duplicateSymbol signature.name)
  | none => .ok { m with functions := m.functions.insert signature.name (.declared signature) }

/-- Defines a function, in the place of its declaration if there is one. -/
def define (m : Module) (f : Func) : Except IrError Module :=
  let stored : Module := { m with functions := m.functions.insert f.name f }
  match m.func? f.name with
  | some g =>
      if g.isDeclaration ∧ g.signature = f.signature then .ok stored
      else .error (.duplicateSymbol f.name)
  | none => .ok stored

/-- Changes the body of a function that has one. -/
def modifyBody (m : Module) (name : String) (f : Body → Body) : Module :=
  { m with functions := m.functions.modify name fun g => { g with body := g.body.map f } }

end Module

end SexprSsa
