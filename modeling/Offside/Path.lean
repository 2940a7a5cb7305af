import Offside.Text

/-!
# Paths

A path is a list of names, one below the other, relative to the working directory or to the root
of the file system. Written paths may have doubled slashes, slashes at the end and single dots;
these mean nothing and are dropped. A double dot is kept, since it means the parent of whatever
stands before it.
-/

namespace Offside

/-- A path: what stands before the first name (nothing, one slash or two), and the names. -/
structure Path where
  root : Text
  names : List Text
  deriving DecidableEq, Repr

namespace Path

/-- The path that a text spells. Exactly two slashes in front are kept as two, more are one. -/
def ofText (s : Text) : Path where
  root :=
    match (s.takeWhile (· == '/')).length with
    | 0 => []
    | 2 => ['/', '/']
    | _ => ['/']
  names := (Text.pieces '/' s).filter fun name => !name.isEmpty && name != ['.']

/-- The text of a path; the empty path is a single dot. -/
def toText (p : Path) : Text :=
  if p.root.isEmpty && p.names.isEmpty then ['.']
  else p.root ++ List.intercalate ['/'] p.names

/-- The last name. -/
def name (p : Path) : Text := p.names.getLast?.getD []

/-- The path without its last name. -/
def parent (p : Path) : Path := { p with names := p.names.dropLast }

/-- The path with one more name. -/
def child (p : Path) (name : Text) : Path := { p with names := p.names ++ [name] }

/-- Whether a path is in order in front of another. Names are compared one after the other. -/
def le (p q : Path) : Bool := !List.lex q.names p.names Text.isBefore

/-! ### Suffixes -/

/-- The suffix of a name, from the last dot on. A name has no suffix if that dot is its first or
its last character. -/
def suffixOf (name : Text) : Text :=
  let tail := Text.afterLast '.' name
  if tail.isEmpty || name.length ≤ tail.length + 1 then [] else '.' :: tail

/-- The suffix of the last name. -/
def suffix (p : Path) : Text := suffixOf p.name

/-- Put another suffix in place of that of the last name. There is no such path if the suffix has a
slash in it. -/
def withSuffix? (p : Path) (suffix : Text) : Option Path :=
  if suffix.contains '/' then none
  else
    let stem := p.name.take (p.name.length - p.suffix.length)
    some (p.parent.child (stem ++ suffix))

end Path

end Offside
