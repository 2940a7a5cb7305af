import Offside.Text

/-!
# Patterns for names

A pattern is matched against a whole name. A star stands for any characters, a question mark
for one character, and a class in brackets for one of the characters it lists.

A class may hold ranges, written with a hyphen between the two ends, and is negated by an
exclamation mark in front. A closing bracket right at the beginning of a class is a member of
it, and so is a hyphen that stands at either end. A range whose ends are in the wrong order is
dropped before the class is read, so that what follows it may come to stand in front. A bracket
that is never closed stands for itself.
-/

namespace Offside

/-! ### Character classes -/

/-- A class of characters: single members, and ranges by their ends. -/
structure CharClass where
  negated : Bool
  members : Text
  ranges : List (Char × Char)
  deriving DecidableEq, Repr

namespace CharClass

/-- Whether a class holds a character. -/
def admits (cls : CharClass) (c : Char) : Bool :=
  (cls.members.contains c || cls.ranges.any fun r => r.1 ≤ c && c ≤ r.2) != cls.negated

/-- Cut the inside of a class at the hyphens that make ranges: those with at least `least`
characters since the last cut. -/
def chunksFrom : Nat → Text → Text → List Text
  | _, chunk, [] => [chunk]
  | least, chunk, c :: s =>
    if c = '-' ∧ least ≤ chunk.length then chunk :: chunksFrom 2 [] s
    else chunksFrom least (chunk ++ [c]) s

/-- A hyphen with nothing behind it is a member of the class. -/
def restoreLast : List Text → List Text
  | [chunk, []] => [chunk ++ ['-']]
  | chunk :: chunks => chunk :: restoreLast chunks
  | [] => []

/-- Drop the ranges whose ends are in the wrong order, from the last to the first. -/
def dropReversed : List Text → List Text
  | [] => []
  | chunk :: chunks =>
    match dropReversed chunks with
    | [] => [chunk]
    | next :: rest =>
      match chunk.getLast?, next.head? with
      | some low, some high =>
        if high < low then (chunk.dropLast ++ next.drop 1) :: rest else chunk :: next :: rest
      | _, _ => chunk :: next :: rest

/-- The ranges between neighbouring chunks. -/
def rangesBetween : List Text → List (Char × Char)
  | chunk :: next :: rest =>
    match chunk.getLast?, next.head? with
    | some low, some high => (low, high) :: rangesBetween (next :: rest)
    | _, _ => rangesBetween (next :: rest)
  | _ => []

/-- The class of the characters in the chunks and of the ranges between them. A hyphen with nothing
in front of it is a member. -/
def ofChunks (negated : Bool) : List Text → CharClass
  | [] :: next :: rest => ⟨negated, '-' :: (next :: rest).flatten, rangesBetween (next :: rest)⟩
  | chunks => ⟨negated, chunks.flatten, rangesBetween chunks⟩

/-- The class whose inside is the given text. The class is negated if an exclamation mark comes
first once the reversed ranges are dropped. -/
def ofText (s : Text) : CharClass :=
  let least := if s.head? = some '!' then 2 else 1
  match dropReversed (restoreLast (chunksFrom least [] s)) with
  | ('!' :: chunk) :: rest => ofChunks true (chunk :: rest)
  | chunks => ofChunks false chunks

/-- The number of characters at the beginning of a class among which no bracket closes it. -/
def reserved : Text → Nat
  | '!' :: ']' :: _ => 2
  | '!' :: _ => 1
  | ']' :: _ => 1
  | _ => 0

/-- The length of the inside of a class, given the text behind its opening bracket. -/
def insideLength? (s : Text) : Option Nat :=
  ((s.drop (reserved s)).findIdx? (· == ']')).map (· + reserved s)

end CharClass

/-! ### Patterns -/

/-- What one place of a pattern stands for. -/
inductive Wildcard where
  | anything
  | oneOf (cls : CharClass)
  deriving DecidableEq, Repr

/-- A pattern for names. -/
abbrev NamePattern := List Wildcard

namespace NamePattern

/-- The wildcard for one character, whichever it is. -/
def anyChar : Wildcard := .oneOf ⟨true, [], []⟩

/-- The wildcard for the character itself. -/
def exactly (c : Char) : Wildcard := .oneOf ⟨false, [c], []⟩

/-- The pattern that a text spells, after its first `n` characters, which belong to a class
already read. -/
def ofTextFrom : Nat → Text → NamePattern
  | _, [] => []
  | n + 1, _ :: s => ofTextFrom n s
  | 0, c :: s =>
    if c = '*' then .anything :: ofTextFrom 0 s
    else if c = '?' then anyChar :: ofTextFrom 0 s
    else if c = '[' then
      match CharClass.insideLength? s with
      | some n => .oneOf (CharClass.ofText (s.take n)) :: ofTextFrom (n + 1) s
      | none => exactly c :: ofTextFrom 0 s
    else exactly c :: ofTextFrom 0 s

/-- The pattern that a text spells. -/
def ofText (s : Text) : NamePattern := ofTextFrom 0 s

/-- Whether some end of the text satisfies `p`. -/
def anySuffix (p : Text → Bool) : Text → Bool
  | [] => p []
  | c :: s => p (c :: s) || anySuffix p s

/-- Whether the pattern matches the whole text. -/
def matches? : NamePattern → Text → Bool
  | [], s => s.isEmpty
  | .anything :: pattern, s => anySuffix (matches? pattern) s
  | .oneOf _ :: _, [] => false
  | .oneOf cls :: pattern, c :: s => cls.admits c && matches? pattern s

/-- Whether a text, taken as a pattern, has wildcards in it. -/
def hasWildcard (s : Text) : Bool :=
  s.any fun c => c == '*' || c == '?' || c == '['

end NamePattern

end Offside
