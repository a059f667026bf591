/-
SexprSsa.Main — the program.

Files are those of the system; the report of the command goes to the
standard channels.
-/
import SexprSsa.CommandLine.Execute

namespace SexprSsa.CommandLine

/-- What the number of a failure of the system means. -/
def FileError.ofCode (code : UInt32) (details : String) : FileError :=
  match code.toNat with
  | 2 => .notFound
  | 20 => .notDirectory
  | 21 => .isDirectory
  | 36 => .nameTooLong
  | number => .other s!"{details} (os error {number})"

/-- What a failure of the system means. -/
def FileError.ofSystem : IO.Error → FileError
  | .noFileOrDirectory _ code details => .ofCode code details
  | .invalidArgument _ code details => .ofCode code details
  | .permissionDenied _ code details => .ofCode code details
  | .resourceExhausted _ code details => .ofCode code details
  | .inappropriateType _ code details => .ofCode code details
  | .noSuchThing _ code details => .ofCode code details
  | e => .other (toString e)

instance : Files IO where
  readFile path := do
    try
      return .ok (← IO.FS.readFile path)
    catch e => return .error (.ofSystem e)
  writeFile path contents := do
    try
      IO.FS.writeFile path contents
      return .ok ()
    catch e => return .error (.ofSystem e)

end SexprSsa.CommandLine

/-- Runs the command that the arguments name. -/
def main (args : List String) : IO UInt32 := do
  let report ← SexprSsa.CommandLine.invoke args
  (← IO.getStdout).putStr report.out
  (← IO.getStderr).putStr report.err
  return UInt32.ofNat report.code
