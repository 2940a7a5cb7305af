import Offside.Line

/-!
# Outlines

The outline of a file is a forest: each line with the lines nested below it. A line that
starts with a pipe at the width of its parent continues the parent and is carried through as it
is. A block header is a line of one repeated separator character. It has no text of its own and
only groups its children.
-/

namespace Offside

/-! ### Block headers -/

/-- The characters that make up block headers: full stop, hyphen, low line and overline. -/
def headerChars : List Char := ['.', '-', '_', '‾']

/-- Whether the text, blanks around it aside, is one separator character, repeated. -/
def isHeader (text : Text) : Bool :=
  match Text.strip text with
  | [] => false
  | c :: s => headerChars.contains c && s.all (· == c)

/-! ### Nodes -/

/-- A node of the outline. The number of tokens of a hand-made subtree may be any integer. -/
inductive Node where
  /-- A line with the nodes nested below it. -/
  | subtree (line : Line) (tokens : Int) (children : List Node)
  /-- The text of a continuation, and the number of the line it comes from. -/
  | continuation (text : Text) (number : Int)
  deriving Repr, Inhabited

namespace Node

/-- Whether a line with `children` below it is written in parentheses: when there is more than
one element, the tokens of the line and its children counted together. -/
def needsParens (tokens : Int) (children : List Node) : Bool :=
  1 < (children.length : Int) + tokens

mutual

/-- The nodes of a tree with their depths, every node before those below it. -/
def preorder (depth : Nat) : Node → List (Nat × Node)
  | .subtree line tokens children =>
    (depth, .subtree line tokens children) :: preorderAll (depth + 1) children
  | .continuation text number => [(depth, .continuation text number)]

/-- The nodes of a forest with their depths, every node before those below it. -/
def preorderAll (depth : Nat) : List Node → List (Nat × Node)
  | [] => []
  | node :: nodes => node.preorder depth ++ preorderAll depth nodes

end

end Node

/-- The outline of a file: one tree for each line at root level. -/
structure Document where
  roots : List Node
  filename : Text
  deriving Repr

end Offside
