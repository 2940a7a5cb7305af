import Offside.Path
import Offside.Text.Quoted
import Offside.Text.Utf8

/-!
# File systems

A file system maps locations to files and directories. A location is the list of names that
leads to it from the root. All operations are functions on such a value: reading looks a path
up from the working directory, and writing gives a file system that differs at one location.

A path is followed name by name. Every name but the last has to be that of a directory, and a
double dot goes back to the parent. Names have a limited length, and so have paths.

There are files and directories and nothing else. Left out are

* links: no file or directory is at two locations, and a double dot always undoes the name before
  it;
* permissions: whoever runs the program may list every directory and read and write every file;
* special files, such as devices and pipes: what is read from a file is what was written to it;
* the rest of the system: only the program changes files, and there is always room for them.
-/

namespace Offside

/-- The names that lead from the root to a file or directory. -/
abbrev Location := List Text

/-- What stands at a location. -/
inductive Entry where
  | file (bytes : List UInt8)
  | directory
  deriving DecidableEq, Repr

/-- The entries of a file system, at most one for each location, and the working directory. The
root is a directory whether it is listed or not. -/
structure FileSystem where
  entries : List (Location × Entry)
  workingDirectory : Location
  deriving Repr

/-! ### Refusals -/

/-- Why the file system refuses a path. -/
inductive Refusal where
  | missing
  | notDirectory
  | isDirectory
  | nameTooLong
  /-- The path has a null character in it and cannot be passed on. -/
  | nullCharacter
  deriving DecidableEq, Repr

/-- The refusal in words, with the path that it is about. -/
def Refusal.message (path : Path) : Refusal → Text
  | .missing => "[Errno 2] No such file or directory: ".toList ++ Text.quoted path.toText
  | .notDirectory => "[Errno 20] Not a directory: ".toList ++ Text.quoted path.toText
  | .isDirectory => "[Errno 21] Is a directory: ".toList ++ Text.quoted path.toText
  | .nameTooLong => "[Errno 36] File name too long: ".toList ++ Text.quoted path.toText
  | .nullCharacter => "embedded null byte".toList

namespace FileSystem

/-! ### Following a path -/

/-- The entry at a location. -/
def entry? (fs : FileSystem) (location : Location) : Option Entry :=
  if location.isEmpty then some .directory else fs.entries.lookup location

/-- The greatest number of octets of a name. -/
def maxName : Nat := 255

/-- The greatest number of octets of a path. -/
def maxPath : Nat := 4095

/-- Whether a text has more octets than allowed. -/
def exceeds (limit : Nat) (s : Text) : Bool := limit < (Utf8.encode s).length

/-- The name of the parent of a directory. -/
def parentName : Text := ['.', '.']

/-- Follow names from a location on. The result is where the names lead, if there is something. -/
def follow (fs : FileSystem) : Location → List Text → Except Refusal Location
  | location, [] =>
    match fs.entry? location with
    | some _ => .ok location
    | none => .error .missing
  | location, name :: names =>
    match fs.entry? location with
    | none => .error .missing
    | some (.file _) => .error .notDirectory
    | some .directory =>
      if name = parentName then fs.follow location.dropLast names
      else if exceeds maxName name then .error .nameTooLong
      else fs.follow (location ++ [name]) names

/-- Where a path starts. -/
def base (fs : FileSystem) (path : Path) : Location :=
  if path.root.isEmpty then fs.workingDirectory else []

/-- Refuse the paths that cannot be followed whatever there is. -/
def guard (path : Path) : Except Refusal Unit :=
  if path.toText.contains (Char.ofNat 0) then .error .nullCharacter
  else if exceeds maxPath path.toText then .error .nameTooLong
  else .ok ()

/-- The location of a path. -/
def locate (fs : FileSystem) (path : Path) : Except Refusal Location := do
  guard path
  fs.follow (fs.base path) path.names

/-- What is at the end of a path. -/
def find (fs : FileSystem) (path : Path) : Except Refusal Entry := do
  let location ← fs.locate path
  match fs.entry? location with
  | some entry => .ok entry
  | none => .error .missing

/-! ### Questions about a path -/

/-- The answer to a question about what is at the end of a path. If nothing can be there the answer
is no; too long a name is refused. -/
def holds (p : Entry → Bool) : Except Refusal Entry → Except Refusal Bool
  | .ok entry => .ok (p entry)
  | .error .nameTooLong => .error .nameTooLong
  | .error _ => .ok false

/-- Whether there is a file at the end of the path. -/
def isFile (fs : FileSystem) (path : Path) : Except Refusal Bool :=
  holds (· != .directory) (fs.find path)

/-- Whether there is a directory at the end of the path. -/
def isDirectory (fs : FileSystem) (path : Path) : Except Refusal Bool :=
  holds (· == .directory) (fs.find path)

/-- Whether there is anything at the end of the path. -/
def isPresent (fs : FileSystem) (path : Path) : Except Refusal Bool :=
  holds (fun _ => true) (fs.find path)

/-! ### Reading and writing -/

/-- The octets of a file. -/
def read (fs : FileSystem) (path : Path) : Except Refusal (List UInt8) := do
  match ← fs.find path with
  | .file bytes => .ok bytes
  | .directory => .error .isDirectory

/-- Put an entry at a location, in place of what was there. -/
def put (fs : FileSystem) (location : Location) (entry : Entry) : FileSystem :=
  { fs with
    entries :=
      if fs.entries.any (·.1 == location) then
        fs.entries.map fun e => if e.1 == location then (location, entry) else e
      else fs.entries ++ [(location, entry)] }

/-- The location that a path to be written leads to. Its parent has to be there, and it must not
be a directory itself. -/
def target (fs : FileSystem) (path : Path) : Except Refusal Location := do
  guard path
  if path.names.isEmpty then .error .isDirectory
  let parent ← fs.follow (fs.base path) path.names.dropLast
  match fs.entry? parent with
  | none => .error .missing
  | some (.file _) => .error .notDirectory
  | some .directory =>
    if path.name = parentName then .error .isDirectory
    else if exceeds maxName path.name then .error .nameTooLong
    else if fs.entry? (parent ++ [path.name]) = some .directory then .error .isDirectory
    else .ok (parent ++ [path.name])

/-- Write a file, which is created if it is not there. -/
def write (fs : FileSystem) (path : Path) (bytes : List UInt8) : Except Refusal FileSystem := do
  let location ← fs.target path
  .ok (fs.put location (.file bytes))

/-! ### Building and listing -/

/-- Make all the directories on the way to `location ++ names`, which is included. -/
def makeDirectories (fs : FileSystem) : Location → List Text → FileSystem
  | _, [] => fs
  | location, name :: names =>
    let here := location ++ [name]
    let fs := if (fs.entry? here).isSome then fs else fs.put here .directory
    makeDirectories fs here names

/-- Put an entry at a location and make the directories above it. -/
def add (fs : FileSystem) (location : Location) (entry : Entry) : FileSystem :=
  (fs.makeDirectories [] location.dropLast).put location entry

/-- The names that lead from `location` to the entries below it, with these entries. -/
def below (fs : FileSystem) (location : Location) : List (List Text × Entry) :=
  fs.entries.filterMap fun e =>
    if location.isPrefixOf e.1 && location.length < e.1.length then
      some (e.1.drop location.length, e.2)
    else none

end FileSystem

end Offside
