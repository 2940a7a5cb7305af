import Offside.Comment
import Offside.Group

/-!
# Tokens

The tokens of a line are what spaces divide, once string literals are taken as one piece, the
comment is dropped and each outermost group is taken as one piece. Only their number matters:
it decides whether the line needs parentheses of its own.
-/

namespace Offside.Token

/-- The text whose pieces are the tokens: no literal, comment or group is left in it. -/
def skeleton (content : Text) : Except Group.Mismatch Text :=
  Group.fold (Comment.strip (Literal.mask content))

/-- The number of pieces that spaces divide a text into. -/
def countPieces (s : Text) : Nat :=
  (Text.pieces ' ' s).countP (!·.isEmpty)

/-- The number of top-level tokens of a line's content. -/
def count (content : Text) : Except Group.Mismatch Nat :=
  (skeleton content).map countPieces

end Offside.Token
