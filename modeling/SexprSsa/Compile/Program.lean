/-
SexprSsa.Compile.Program — from programs to modules.

A module starts with the declaration of the print function and the
configured variables. The program becomes the body of the entry function,
which returns zero. The names of the variables and of the entry function are
in scope. The finished module is checked before it is handed out.
-/
import SexprSsa.Compile.Lower
import SexprSsa.Compile.Options
import SexprSsa.Ir.Verify

namespace SexprSsa

/-- Adds a configured variable to a module and binds its name. -/
def addConfigured (start : Module × Scopes) (g : GlobalOption) :
    Except IrError (Module × Scopes) := do
  let (id, module) ← start.1.addGlobal g.name (.int g.value)
  return (module, start.2.define g.name (.global id .i32))

/-- The module and the scope in which a program is compiled. -/
def prepare (options : Options) : Except IrError (Module × Scopes) := do
  let module ← (Module.empty options.moduleName).declare printSignature
  let (module, scopes) ← options.globals.foldlM addConfigured (module, .root [])
  return (module, scopes.define options.entry (.value (.func options.entry)))

/-- Lowers a program as the whole of a function that returns zero. -/
def lowerProgram (form : Form) : Lower Unit := do
  let _ ← form.lower
  Lower.build (.ret (some (.ofInt 0)))

/-- Puts the finished entry function into its module and checks the module. -/
def finishModule (s : LowerState) : Except IrError Module := do
  let f ← s.builder.finish.mapError .build
  let module ← s.module.define f
  module.verify
  return module

/-- Compiles an expression as a whole program. -/
def compileExpr (options : Options) (program : Expr) : Except CompileError Module := do
  let (module, scopes) ← (prepare options).mapError .ir
  let builder := Builder.start ⟨options.entry, [], .i32, false⟩
  match lowerProgram (.ofExpr options.strict program) ⟨module, builder, scopes⟩ with
  | (.error e, _) => throw e
  | (.ok (), s) => (finishModule s).mapError .ir

/-- Compiles the text of a program. -/
def compile (options : Options) (source : String) : Except CompileError Module := do
  let program ← (readProgram source).mapError .unreadable
  compileExpr options program

end SexprSsa
