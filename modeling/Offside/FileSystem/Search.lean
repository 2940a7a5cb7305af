import Offside.FileSystem
import Offside.NamePattern

/-!
# Searching a directory

A search looks for a pattern at every depth below a directory. The pattern may have several parts,
divided by slashes, and each part is matched against one name. A part without wildcards is looked
up, so a double dot leads back to the parent. A part of two stars stands for any number of
directories, and two stars in a row are not allowed anywhere else. If the pattern ends with a
slash, only directories are found.

What is found is listed once, in the order of paths.
-/

namespace Offside

/-- One part of a search pattern. -/
inductive PatternPart where
  /-- Any number of directories. -/
  | descend
  /-- A name that matches the pattern. -/
  | wildcard (pattern : NamePattern)
  /-- The name itself. -/
  | literal (name : Text)
  deriving DecidableEq, Repr

/-- A search pattern: its parts, and whether only directories are looked for. -/
structure SearchPattern where
  parts : List PatternPart
  directoriesOnly : Bool
  deriving DecidableEq, Repr

namespace SearchPattern

/-- Whether two stars stand side by side. -/
def hasDoubleStar : Text → Bool
  | '*' :: '*' :: _ => true
  | _ :: s => hasDoubleStar s
  | [] => false

/-- The part that a name in a pattern spells. Two stars must be alone. -/
def part? (name : Text) : Option PatternPart :=
  if name = ['*', '*'] then some .descend
  else if hasDoubleStar name then none
  else if NamePattern.hasWildcard name then some (.wildcard (NamePattern.ofText name))
  else some (.literal name)

/-- The search pattern that a text spells. -/
def ofText? (s : Text) : Option SearchPattern := do
  let parts ← (Path.ofText s).names.mapM part?
  return ⟨parts, s.getLast? = some '/'⟩

end SearchPattern

namespace FileSystem

/-- A path that the file system refuses, and why. -/
structure PathRefusal where
  path : Path
  refusal : Refusal
  deriving DecidableEq, Repr

/-- What is wrong, in words. -/
def PathRefusal.message (e : PathRefusal) : Text := e.refusal.message e.path

/-- Note the path that a refusal is about. -/
def about {α : Type} (path : Path) : Except Refusal α → Except PathRefusal α
  | .ok a => .ok a
  | .error e => .error ⟨path, e⟩

/-- The entries below a directory, by the names that lead to them. -/
def contents (fs : FileSystem) (directory : Path) : Except PathRefusal (List (List Text × Entry)) :=
  do
    let location ← about directory (fs.locate directory)
    return fs.below location

/-- The paths that the parts of a pattern lead to from a directory. All but the last have to be
directories, and the last one too if only directories are looked for. -/
def select (fs : FileSystem) (directoriesOnly : Bool) :
    List PatternPart → Path → Except PathRefusal (List Path)
  | [], path => .ok [path]
  | part :: parts, directory => do
    let inner := directoriesOnly || !parts.isEmpty
    let next ← match part with
      | .descend => do
        let found ← fs.contents directory
        pure (directory ::
          (found.filter (·.2 == .directory)).map fun e =>
            { directory with names := directory.names ++ e.1 })
      | .wildcard pattern => do
        let found ← fs.contents directory
        pure (found.filterMap fun e =>
          match e.1 with
          | [name] =>
            if pattern.matches? name && (!inner || e.2 == .directory) then
              some (directory.child name)
            else none
          | _ => none)
      | .literal name => do
        let path := directory.child name
        let found ← about path (if inner then fs.isDirectory path else fs.isPresent path)
        pure (if found then [path] else [])
    return (← next.mapM (fs.select directoriesOnly parts)).flatten

/-- Put a path at its place in a list that is in order, unless it is there. -/
def insertPath (p : Path) : List Path → List Path
  | [] => [p]
  | q :: qs =>
    if p = q then q :: qs
    else if p.le q then p :: q :: qs
    else q :: insertPath p qs

/-- List the paths in order, each one once. -/
def inOrder (paths : List Path) : List Path := paths.foldr insertPath []

/-- The paths below a directory, at any depth, that match the pattern. -/
def search (fs : FileSystem) (directory : Path) (pattern : SearchPattern) :
    Except PathRefusal (List Path) := do
  let found ← fs.select pattern.directoriesOnly (.descend :: pattern.parts) directory
  return inOrder found

end FileSystem

end Offside
