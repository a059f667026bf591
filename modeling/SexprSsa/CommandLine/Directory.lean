/-
SexprSsa.CommandLine.Directory — a working directory kept in memory.

With such a directory as the state, a command is a function from one
directory to the next. A path is followed from left to right: every step but
the last has to lead to a directory, a dot stays, two dots go up, and slashes
that repeat count once. What the last step finds depends on the use: reading
refuses a slash after a file, and writing refuses a slash after any name,
before it looks whether there is anything of that name.

Of the world outside the directory only this is known: the directories above
it, the top of the file system with its usual directories, and the null
device, which reads as an empty file and forgets what is written to it.
-/
import SexprSsa.CommandLine.Files
import SexprSsa.Data.Table

namespace SexprSsa.CommandLine

/-! ## Limits -/

/-- The name of a file has at most this many bytes. -/
def nameLimit : Nat := 255

/-- A path has fewer bytes than this. -/
def pathLimit : Nat := 4096

/-! ## Places -/

/-- A place, by the steps that lead to it from the working directory. Steps up come before all
others; a place that is reached from the top of the file system has a slash as its first step. -/
abbrev Place := List String

namespace Place

/-- The top of the file system. -/
def top : Place := ["/"]

/-- The place one step up; above the top there is only the top. -/
def above (place : Place) : Place :=
  if place = top then top
  else if place.all fun step => step = ".." then ".." :: place
  else place.dropLast

/-- Whether a place lies in the working directory. -/
def isInside (place : Place) : Bool := place.head? ≠ some ".." && place.head? ≠ some "/"

/-- The usual directories below the top. -/
def usualDirectories : List Place :=
  ["bin", "dev", "etc", "home", "lib", "opt", "proc", "root", "run", "sys", "tmp", "usr", "var"].map
    fun name => ["/", name]

/-- The device that reads as an empty file and forgets what is written to it. -/
def nullDevice : Place := ["/", "dev", "null"]

/-- Whether there is a directory at a place, whatever files there are. -/
def isStanding (place : Place) : Bool :=
  place = top || place.all (fun step => step = "..") || usualDirectories.contains place

end Place

/-- The steps of a path. -/
structure Path where
  /-- Where the path starts: the working directory or the top. -/
  start : Place
  steps : List String
  /-- Whether a slash follows the last step. -/
  slash : Bool
  deriving DecidableEq, Repr

/-- Takes a path apart. -/
def Path.ofString (text : String) : Path where
  start := if text.toList.head? = some '/' then Place.top else []
  steps := (text.splitOn "/").filter fun step => step ≠ ""
  slash := text.toList.getLast? = some '/'

/-! ## Directories -/

/-- The files in and around a working directory, by place. -/
structure Directory where
  files : Table Place String
  deriving DecidableEq

namespace Directory

/-- What there is at a place. -/
inductive Entry where
  | file (contents : String)
  | device
  | directory
  | nothing
  deriving DecidableEq, Repr

/-- Where a path ends. -/
inductive End where
  /-- At a directory, without a look at any name. -/
  | directory
  /-- At a name in a directory; a slash may follow the name. -/
  | named (parent : Place) (name : String) (slash : Bool)
  deriving DecidableEq, Repr

/-- The directory with the given files. -/
def ofList (files : List (String × String)) : Directory :=
  ⟨Table.ofList (files.map fun (path, contents) => ((Path.ofString path).steps, contents))⟩

/-- Whether some file lies below a place. -/
def hasBelow (d : Directory) (place : Place) : Bool :=
  d.files.keys.any fun key => place.length < key.length && place.isPrefixOf key

/-- What there is at a place. -/
def entry (d : Directory) (place : Place) : Entry :=
  if place = Place.nullDevice then .device
  else match d.files.find? place with
    | some contents => .file contents
    | none => if place.isStanding || d.hasBelow place then .directory else .nothing

/-- What there is under a name in a directory. -/
def look (d : Directory) (parent : Place) (name : String) : Except FileError Entry :=
  if nameLimit < name.utf8ByteSize then .error .nameTooLong else .ok (d.entry (parent ++ [name]))

/-- Takes one step, which must lead to a directory. -/
def enter (d : Directory) (here : Place) (step : String) : Except FileError Place :=
  if step = "." then .ok here
  else if step = ".." then .ok here.above
  else do
    match ← d.look here step with
    | .directory => return here ++ [step]
    | .file _ | .device => throw .notDirectory
    | .nothing => throw .notFound

/-- Follows a path up to its last name. -/
def follow (d : Directory) (path : String) : Except FileError End :=
  if pathLimit ≤ path.utf8ByteSize then .error .nameTooLong
  else if path = "" then .error .notFound
  else
    let path := Path.ofString path
    match path.steps.getLast? with
    | none => .ok .directory
    | some last => do
        let parent ← path.steps.dropLast.foldlM d.enter path.start
        if last = "." ∨ last = ".." then return .directory
        else return .named parent last path.slash

/-- The text of a file. -/
def read (d : Directory) (path : String) : Except FileError String := do
  match ← d.follow path with
  | .directory => throw .isDirectory
  | .named parent name slash =>
      match ← d.look parent name with
      | .file contents => if slash then throw .notDirectory else return contents
      | .device => if slash then throw .notDirectory else return ""
      | .directory => throw .isDirectory
      | .nothing => throw .notFound

/-- Writes a file, in the place of an old one if there is one. -/
def write (d : Directory) (path contents : String) : Except FileError Directory := do
  match ← d.follow path with
  | .directory => throw .isDirectory
  | .named parent name slash =>
      if slash then throw .isDirectory
      match ← d.look parent name with
      | .file _ | .nothing => return ⟨d.files.insert (parent ++ [name]) contents⟩
      | .device => return d
      | .directory => throw .isDirectory

/-- The files of a directory that an earlier state of it does not have, by path. -/
def newSince (d earlier : Directory) : List (String × String) :=
  (d.files.entries.filter fun file => file.1.isInside && !earlier.files.contains file.1).map
    fun (place, contents) => ("/".intercalate place, contents)

instance : Files (StateM Directory) where
  readFile path := fun d => (d.read path, d)
  writeFile path contents := fun d =>
    match d.write path contents with
    | .ok d' => (.ok (), d')
    | .error e => (.error e, d)

end Directory

end SexprSsa.CommandLine
