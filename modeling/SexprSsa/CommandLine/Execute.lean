/-
SexprSsa.CommandLine.Execute — carrying out commands.

A command ends with a report: the exit code and what goes to the two output
channels. A failure says what was attempted and then lists the causes, the
outermost first; lines after the first of a cause are indented to match.
-/
import SexprSsa.CommandLine.Command
import SexprSsa.CommandLine.Files
import SexprSsa.Compile.Program
import SexprSsa.Ir.Codec.Module
import SexprSsa.Ir.Listing

namespace SexprSsa.CommandLine

/-! ## Reports -/

/-- The result of a command. -/
structure Report where
  code : Nat
  out : String
  err : String
  deriving DecidableEq, Repr

/-- A failed attempt and its causes. -/
structure Failure where
  attempt : String
  causes : List String
  deriving DecidableEq, Repr

/-- Text whose lines after the first are indented. -/
def hanging (indent : String) (text : String) : String :=
  ("\n" ++ indent).intercalate (text.splitOn "\n")

/-- A cause in a numbered list, the number right-aligned. -/
def numbered (cause : String × Nat) : String :=
  let number := toString cause.2
  let margin := String.ofList (List.replicate (5 - number.length) ' ')
  s!"{margin}{number}: " ++ hanging "       " cause.1 ++ "\n"

/-- The text of a list of causes. -/
def causesText : List String → String
  | [] => ""
  | [cause] => "\nCaused by:\n    " ++ hanging "    " cause ++ "\n"
  | causes => "\nCaused by:\n" ++ String.join (causes.zipIdx.map numbered)

/-- The text of a failure. -/
def Failure.render (f : Failure) : String := s!"Error: {f.attempt}\n" ++ causesText f.causes

/-- The report of a failure, after what was written before it. -/
def Report.failed (f : Failure) (out : String) : Report := ⟨1, out, f.render⟩

/-- The causes of a compilation error, the outermost first. -/
def causesOf (error : CompileError) : List String :=
  match error with
  | .unreadable (.malformed place expected) => [error.message, place.render expected.wording]
  | .ir inner => [error.message, inner.message]
  | error => [error.message]

/-! ## Steps of a command -/

variable {m : Type → Type} [Monad m] [Files m]

/-- The text of a program. -/
def readSource : Source → m (Except Failure String)
  | .inline text => pure (.ok text)
  | .file path => do
      match ← Files.readFile path with
      | .ok text => return .ok text
      | .error e => return .error ⟨s!"Failed to read {path}", [e.message]⟩

/-- The options of a compilation. -/
def readConfig : Option String → m (Except Failure Options)
  | none => pure (.ok .standard)
  | some path => do
      match ← Files.readFile path with
      | .error e => return .error ⟨s!"Failed to read config {path}", [e.message]⟩
      | .ok text =>
          match Options.load? text with
          | some options => return .ok options
          | none => return .error ⟨s!"Invalid config {path}", ["not a set of options"]⟩

/-- A compiled program and the name of its entry function. -/
structure Compiled where
  entry : String
  module : Module

/-- Reads a program and its options, in this order, and compiles it. -/
def compileInput (input : Input) : m (Except Failure Compiled) := do
  match ← readSource input.source with
  | .error f => return .error f
  | .ok text =>
      match ← readConfig input.config with
      | .error f => return .error f
      | .ok options =>
          match compile options text with
          | .ok module => return .ok ⟨options.entry, module⟩
          | .error e => return .error ⟨s!"Failed to compile {input.source.name}", causesOf e⟩

/-- Compiles a program and writes its module to a file. -/
def compileTo (input : Input) (output : String) (emission : Emission) (echo : Bool) :
    m Report := do
  match ← compileInput input with
  | .error f => return .failed f ""
  | .ok compiled =>
      let contents := match emission with
        | .text => compiled.module.render .standard
        | .json => compiled.module.save
      match ← Files.writeFile output contents with
      | .error e => return .failed ⟨s!"Failed to write {output}", [e.message]⟩ ""
      | .ok () => return ⟨0, if echo then contents else "", s!"SUCCESS: wrote {output}\n"⟩

/-- Compiles a program and runs its entry function. -/
def compileAndRun (input : Input) (limit : Nat) : m Report := do
  match ← compileInput input with
  | .error f => return .failed f ""
  | .ok compiled =>
      match Machine.run compiled.module limit compiled.entry with
      | .ok outcome => return ⟨0, outcome.output, ""⟩
      | .error fault =>
          return .failed ⟨s!"Execution of %{compiled.entry} failed", [fault.message]⟩ ""

/-- Compiles a program and says whether that works. -/
def checkOnly (input : Input) : m Report := do
  match ← compileInput input with
  | .ok _ => return ⟨0, s!"VALID {input.source.name}\n", ""⟩
  | .error f => return .failed f "INVALID\n"

/-- Carries out a command. -/
def Command.execute : Command → m Report
  | .compile input output emission echo => compileTo input output emission echo
  | .run input limit => compileAndRun input limit
  | .check input => checkOnly input

/-! ## Whole invocations -/

/-- A summary of the commands. -/
def usageText : String :=
  "\n".intercalate
    ["Usage: eva [-v | -q] <compile | run | check> [options] [INPUT]", "", "Commands:",
      "  compile  Compile a program and write its module",
      "  run      Compile a program and run it",
      "  check    Compile a program and write nothing", ""]

/-- The report for arguments that are no command. -/
def Stop.report : Stop → Report
  | .usage => ⟨2, "", usageText⟩
  | .help => ⟨0, usageText, ""⟩
  | .version => ⟨0, "eva 0.1.0\n", ""⟩

/-- Reads the arguments and carries out the command. -/
def invoke (args : List String) : m Report :=
  match Command.read args with
  | .ok command => command.execute
  | .error stop => pure stop.report

end SexprSsa.CommandLine
