import Offside.Comment
import Offside.Outline

/-!
# Records

A record is a tree of the outline, written with parentheses. A node with more than one element is
put in parentheses, behind its indentation. A block header is left out, and its children take its
place. The closing parenthesis follows what it closes, unless that would put it into a comment:
then it stands on a line of its own.
-/

namespace Offside

namespace Record

/-- The closing parenthesis for a body, which it must not join if the body ends in a comment. -/
def closing (indent body : Text) : Text :=
  match Comment.start? (Text.afterLast '\n' body) with
  | some _ => '\n' :: (indent ++ [')'])
  | none => [')']

/-- Put the text of a node behind the indentation, in parentheses if it needs them. -/
def wrap (parens : Bool) (indent text : Text) : Text :=
  if parens then
    let body := indent ++ '(' :: text
    body ++ closing indent body
  else indent ++ text

/-- What a node puts behind its indentation, given the texts of its children. -/
def inner (line : Line) (children : List Text) : Text :=
  if isHeader line.text then Text.stripLeft (List.intercalate ['\n'] children)
  else if children.isEmpty then line.content
  else line.content ++ '\n' :: List.intercalate ['\n'] children

end Record

mutual

/-- The text of a node with all that is below it. -/
def Node.record : Node → Text
  | .subtree line tokens children =>
    Record.wrap (Node.needsParens tokens children) line.indent
      (Record.inner line (Node.records children))
  | .continuation text _ => text

/-- The texts of the nodes of a forest. -/
def Node.records : List Node → List Text
  | [] => []
  | node :: nodes => node.record :: Node.records nodes

end

/-- The records of a file, one for each root. -/
def Document.records (doc : Document) : List Text := Node.records doc.roots

end Offside
