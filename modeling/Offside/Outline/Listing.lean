import Offside.Outline
import Offside.Text.Quoted

/-!
# Listing an outline

A listing shows an outline for inspection: the name of the file, then one line for each node in
the order of the file, indented by its depth. Contents are quoted, so that a listing has as many
lines as it shows nodes.
-/

namespace Offside

/-- The listing of one node, without those below it. -/
def Node.entry : Node → Text
  | .subtree line tokens children =>
    (if isHeader line.text then "Header L".toList else "Subtree L".toList)
      ++ Text.ofInt line.number
      ++ " tokens=".toList ++ Text.ofInt tokens
      ++ " children=".toList ++ Text.ofNat children.length
      ++ (if Node.needsParens tokens children then " parens ".toList else [' '])
      ++ Text.quoted line.content
  | .continuation text number =>
    "Continuation L".toList ++ Text.ofInt number ++ ' ' :: Text.quoted text

/-- The lines of the listing, without their line feeds. -/
def Document.listingLines (doc : Document) : List Text :=
  ("Document ".toList ++ doc.filename) ::
    (Node.preorderAll 1 doc.roots).map fun (depth, node) =>
      List.replicate (2 * depth) ' ' ++ node.entry

/-- The listing of an outline. -/
def Document.listing (doc : Document) : Text :=
  doc.listingLines.flatMap (· ++ ['\n'])

end Offside
