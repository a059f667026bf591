/-
SexprSsa.CommandLine.Arguments — reading the arguments of a command.

A command knows a set of options. An option is given by its long name after
two hyphens or by its letter after one; letters can share a hyphen. A value
follows as the next argument, after an equals sign, or right after the
letter; as an argument of its own it must not start with a hyphen, unless it
is a lone hyphen. Two hyphens alone end the options. An option that is not
counted must not be given twice.

Reading stops at the first argument that is wrong, and at a request for help
or for the version.
-/

namespace SexprSsa.CommandLine

/-- What an option takes. -/
inductive Kind where
  /-- No value; may be repeated. -/
  | counted
  /-- No value. -/
  | flag
  /-- Any text. -/
  | text
  /-- A path, which cannot be empty. -/
  | path
  /-- A natural number of 64 bits. -/
  | number
  /-- One of the listed words. -/
  | word (allowed : List String)
  /-- A request that ends the reading. -/
  | help
  | version
  deriving DecidableEq, Repr

/-- An option of a command. -/
structure Opt where
  long : String
  letter : Option Char
  kind : Kind
  deriving DecidableEq, Repr

/-- Why reading ends before the last argument. -/
inductive Stop where
  | usage
  | help
  | version
  deriving DecidableEq, Repr

/-- What has been given so far: options by long name, and words. -/
structure Given where
  options : List (String × String) := []
  words : List String := []
  deriving DecidableEq, Repr

namespace Given

/-- Whether an option has been given. -/
def has (g : Given) (long : String) : Bool := g.options.any fun o => o.1 = long

/-- The value of an option. -/
def value? (g : Given) (long : String) : Option String := g.options.lookup long

end Given

/-! ## Values -/

/-- A natural number below 2^64, with an optional plus sign. -/
def number64? (text : String) : Option Nat :=
  let digits := match text.toList with
    | '+' :: rest => rest
    | rest => rest
  if digits.isEmpty || !digits.all Char.isDigit then none
  else
    let value := Nat.ofDigitChars 10 digits 0
    if value < 0x10000000000000000 then some value else none

/-- Whether an option of a kind can have a value. -/
def Kind.allows (kind : Kind) (value : String) : Bool :=
  match kind with
  | .text => true
  | .path => !value.isEmpty
  | .number => (number64? value).isSome
  | .word allowed => allowed.contains value
  | .counted | .flag | .help | .version => false

/-- Whether an option of a kind takes a value. -/
def Kind.takesValue : Kind → Bool
  | .text | .path | .number | .word _ => true
  | .counted | .flag | .help | .version => false

/-- Records an option without a value. -/
def Given.addFlag (g : Given) (o : Opt) : Except Stop Given :=
  match o.kind with
  | .help => .error .help
  | .version => .error .version
  | .counted => .ok { g with options := (o.long, "") :: g.options }
  | _ => if g.has o.long then .error .usage
      else .ok { g with options := (o.long, "") :: g.options }

/-- Records an option with its value. -/
def Given.addValue (g : Given) (o : Opt) (value : String) : Except Stop Given :=
  if g.has o.long || !o.kind.allows value then .error .usage
  else .ok { g with options := (o.long, value) :: g.options }

/-! ## Arguments -/

/-- What an argument comes to. -/
inductive Effect where
  /-- It is complete. -/
  | done (given : Given)
  /-- The option takes the next argument as its value. -/
  | wants (option : Opt) (given : Given)

/-- Splits a text at its first equals sign. -/
def splitEquals (cs : List Char) : List Char × Option (List Char) :=
  match cs.dropWhile (· != '=') with
  | '=' :: value => (cs.takeWhile (· != '='), some value)
  | _ => (cs, none)

/-- Reads an option by its long name. -/
def readLong (options : List Opt) (g : Given) (body : List Char) : Except Stop Effect :=
  let (name, value) := splitEquals body
  match options.find? fun o => o.long = String.ofList name, value with
  | none, _ => .error .usage
  | some o, none => if o.kind.takesValue then .ok (.wants o g) else do return .done (← g.addFlag o)
  | some o, some value => do return .done (← g.addValue o (String.ofList value))

/-- Reads options by their letters; the rest after a letter may be its value. -/
def readLetters (options : List Opt) (g : Given) : List Char → Except Stop Effect
  | [] => .ok (.done g)
  | letter :: rest =>
      match options.find? fun o => o.letter = some letter with
      | none => .error .usage
      | some o =>
          if o.kind.takesValue then
            match rest with
            | [] => .ok (.wants o g)
            | '=' :: value => do return .done (← g.addValue o (String.ofList value))
            | value => do return .done (← g.addValue o (String.ofList value))
          else do readLetters options (← g.addFlag o) rest

/-- Whether an argument is meant as an option. -/
def isOption (arg : String) : Bool :=
  match arg.toList with
  | '-' :: _ :: _ => true
  | _ => false

/-- Reads an argument that is meant as an option. -/
def readOption (options : List Opt) (g : Given) (arg : String) : Except Stop Effect :=
  match arg.toList with
  | '-' :: '-' :: body => readLong options g body
  | _ :: letters => readLetters options g letters
  | [] => .error .usage

/-- Records a word; a command takes at most `limit` of them, and none may be empty. -/
def Given.addWord (limit : Nat) (g : Given) (word : String) : Except Stop Given :=
  if g.words.length < limit ∧ !word.isEmpty then .ok { g with words := g.words ++ [word] }
  else .error .usage

/-- Reads options up to the first word, and returns what follows that word. -/
def readOptions (options : List Opt) (g : Given) :
    List String → Except Stop (Given × Option (String × List String))
  | [] => .ok (g, none)
  | arg :: rest =>
      if arg = "--" then .error .usage
      else if isOption arg then do
        match ← readOption options g arg with
        | .done g => readOptions options g rest
        | .wants _ _ => .error .usage
      else .ok (g, some (arg, rest))

/-- Reads all arguments of a command that takes at most `limit` words. -/
def readArguments (options : List Opt) (limit : Nat) (g : Given) :
    List String → Except Stop Given
  | [] => .ok g
  | arg :: rest =>
      if arg = "--" then rest.foldlM (Given.addWord limit) g
      else if isOption arg then do
        match ← readOption options g arg with
        | .done g => readArguments options limit g rest
        | .wants o g =>
            match rest with
            | [] => .error .usage
            | value :: rest =>
                if isOption value then .error .usage
                else readArguments options limit (← g.addValue o value) rest
      else do readArguments options limit (← g.addWord limit arg) rest

end SexprSsa.CommandLine
