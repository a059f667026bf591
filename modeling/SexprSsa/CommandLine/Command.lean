/-
SexprSsa.CommandLine.Command — the commands and their options.

There are three commands: one compiles a program and writes its module, one
compiles and runs it, one only compiles it. Each takes the program from a
file or from an option, never from both, and may take compilation options
from a file. Logging can be raised or lowered, not both at one place.
-/
import SexprSsa.CommandLine.Arguments
import SexprSsa.Machine.Run

namespace SexprSsa.CommandLine

/-- Where a program comes from. -/
inductive Source where
  | inline (text : String)
  | file (path : String)
  deriving DecidableEq, Repr

/-- The name of a source in messages. -/
def Source.name : Source → String
  | .inline _ => "<eval>"
  | .file path => path

/-- A program and the file of its compilation options. -/
structure Input where
  source : Source
  config : Option String
  deriving DecidableEq, Repr

/-- How a module is written. -/
inductive Emission where
  | text
  | json
  deriving DecidableEq, Repr

/-- What to do. -/
inductive Command where
  | compile (input : Input) (output : String) (emission : Emission) (echo : Bool)
  | run (input : Input) (limit : Nat)
  | check (input : Input)
  deriving DecidableEq, Repr

/-! ## Options -/

/-- The options of every place. -/
def commonOptions : List Opt :=
  [⟨"verbose", some 'v', .counted⟩, ⟨"quiet", some 'q', .flag⟩, ⟨"help", some 'h', .help⟩]

/-- The options before the command. -/
def rootOptions : List Opt := ⟨"version", some 'V', .version⟩ :: commonOptions

/-- The options of every command. -/
def inputOptions : List Opt :=
  [⟨"eval", some 'e', .text⟩, ⟨"config", some 'c', .path⟩] ++ commonOptions

/-- The options of the command that compiles. -/
def compileOptions : List Opt :=
  [⟨"output", some 'o', .path⟩, ⟨"emit", none, .word ["text", "json"]⟩,
    ⟨"print", none, .flag⟩] ++ inputOptions

/-- The options of the command that runs. -/
def runOptions : List Opt := ⟨"step-limit", none, .number⟩ :: inputOptions

/-! ## Reading a command -/

/-- Logging cannot be raised and lowered at one place. -/
def checkLogging (g : Given) : Except Stop Unit :=
  if g.has "quiet" && g.has "verbose" then .error .usage else .ok ()

/-- The program that a command was given. -/
def inputOf (g : Given) : Except Stop Input := do
  checkLogging g
  let source ← match g.value? "eval", g.words with
    | some text, [] => Except.ok (Source.inline text)
    | none, [path] => Except.ok (Source.file path)
    | _, _ => Except.error Stop.usage
  return ⟨source, g.value? "config"⟩

/-- Reads the arguments after a command's name. -/
def readCommand (name : String) (args : List String) : Except Stop Command :=
  match name with
  | "compile" => do
      let g ← readArguments compileOptions 1 {} args
      let emission := if g.value? "emit" = some "json" then .json else .text
      return .compile (← inputOf g) ((g.value? "output").getD "out.eir") emission (g.has "print")
  | "run" => do
      let g ← readArguments runOptions 1 {} args
      let limit := ((g.value? "step-limit").bind number64?).getD Machine.defaultLimit
      return .run (← inputOf g) limit
  | "check" => do
      let g ← readArguments inputOptions 1 {} args
      return .check (← inputOf g)
  | "help" =>
      match args with
      | [] => .error .help
      | [name] => if ["compile", "run", "check", "help"].contains name then .error .help
          else .error .usage
      | _ => .error .usage
  | _ => .error .usage

/-- Reads all arguments. -/
def Command.read (args : List String) : Except Stop Command := do
  let (g, rest) ← readOptions rootOptions {} args
  match rest with
  | none => throw .usage
  | some (name, args) =>
      let command ← readCommand name args
      checkLogging g
      return command

end SexprSsa.CommandLine
