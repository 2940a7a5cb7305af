import Offside.CommandLine.Batch

/-!
# The program

The program loads the part of the disk that a run can look at, runs on that value, writes the
files that the run has changed, and prints what the run has printed.
-/

namespace Offside.Program

/-! ### Loading -/

/-- The absolute path of a location, as the system spells it. -/
def locationText (location : Location) : String :=
  String.ofList ('/' :: List.intercalate ['/'] location)

/-- What stands at a location on disk. -/
def entryAt? (location : Location) : IO (Option Entry) := do
  try
    let path ← IO.FS.realPath (locationText location)
    if ← path.isDir then return some .directory
    return some (.file (← IO.FS.readBinFile path).toList)
  catch _ => return none

/-- Load what stands at a location. -/
def loadEntry (fs : FileSystem) (location : Location) : IO FileSystem := do
  if location.isEmpty then return fs
  match ← entryAt? location with
  | some entry => return fs.add location entry
  | none => return fs

/-- Load the entries of a directory, and those below them if `deep` is set. Links to directories
are not followed. -/
partial def loadDirectory (deep : Bool) (fs : FileSystem) (location : Location) :
    IO FileSystem := do
  let directory ← IO.FS.realPath (locationText location)
  let mut fs := fs
  for e in ← directory.readDir do
    let here := location ++ [e.fileName.toList]
    fs ← loadEntry fs here
    if deep && (← e.path.symlinkMetadata).type == .dir then
      fs ← loadDirectory deep fs here
  return fs

/-- Follow names from a location, without looking at what is there. -/
def resolveNames (base : Location) (names : List Text) : Location :=
  names.foldl
    (fun location name =>
      if name = FileSystem.parentName then location.dropLast else location ++ [name])
    base

/-- Load everything on the way to a path. -/
def loadPath (fs : FileSystem) (path : Path) : IO FileSystem := do
  let mut fs := fs
  for k in List.range (path.names.length + 1) do
    fs ← loadEntry fs (resolveNames (fs.base path) (path.names.take k))
  return fs

/-- Load what a run with the arguments can look at: the input with all that is below it, or next to
it if it is a file, and the files that the arguments name. -/
def load (args : Arguments) : IO FileSystem := do
  let here := (Path.ofText (← IO.currentDir).toString.toList).names
  let mut fs : FileSystem ← loadEntry ⟨[], here⟩ here
  let input := Path.ofText args.input
  for path in input :: ([args.config, args.output].filterMap Settings.pathOf) do
    fs ← loadPath fs path
  let location := resolveNames (fs.base input) input.names
  match fs.entry? location with
  | some .directory => loadDirectory true fs location
  | some (.file _) => loadDirectory false fs location.dropLast
  | none => loadPath fs (input.parent.child Settings.configName)

/-! ### Saving -/

/-- Write the files in which `after` differs from `before`. -/
def save (before after : FileSystem) : IO Unit := do
  for (location, entry) in after.entries do
    if before.entry? location ≠ some entry then
      match entry with
      | .file bytes => IO.FS.writeBinFile (locationText location) ⟨bytes.toArray⟩
      | .directory => pure ()

/-- Print what a run has printed, and give its exit code. -/
def finish (console : Console) (ending : Ending Nat) : IO UInt32 := do
  IO.print (String.ofList console.out)
  IO.eprint (String.ofList console.err)
  match ending with
  | .returned code => return .ofNat code
  | .exited code => return .ofNat code
  | .escaped failure =>
    IO.eprintln (String.ofList failure.message)
    return 1

end Offside.Program

open Offside in
/-- Run the program. -/
def main (args : List String) : IO UInt32 := do
  match Arguments.ofWords (args.map String.toList) with
  | .error stop => Program.finish (.ofStop stop) (.exited stop.exitCode)
  | .ok arguments =>
    let before ← Program.load arguments
    let outcome := Batch.runWith before arguments
    Program.save before outcome.fs
    Program.finish outcome.console outcome.ending
