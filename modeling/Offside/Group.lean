import Offside.Text

/-!
# Parenthesised groups

Folding replaces each outermost parenthesised group of a text by one character. It fails when
the parentheses do not match, and then names one parenthesis: the first closing one that closes
nothing or, if every closing one closes something, the outermost opening one that is never
closed.
-/

namespace Offside.Group

/-- A parenthesis without a partner, by its offset in the text. -/
structure Mismatch where
  offset : Nat
  deriving DecidableEq, Repr

/-- What is wrong, in words. -/
def Mismatch.message (e : Mismatch) : Text :=
  "Mismatched parentheses at offset ".toList ++ Text.ofNat e.offset

/-- The character that stands for a group. -/
def placeholder : Char := 'p'

/-- Fold a text that starts at `offset`. The second argument is `none` between groups; within
one it holds the offset of the group's opening parenthesis and the number of further groups
open inside. -/
def foldFrom : Nat → Option (Nat × Nat) → Text → Except Mismatch Text
  | _, none, [] => .ok []
  | _, some (start, _), [] => .error ⟨start⟩
  | offset, none, c :: s =>
    if c = '(' then foldFrom (offset + 1) (some (offset, 0)) s
    else if c = ')' then .error ⟨offset⟩
    else (foldFrom (offset + 1) none s).map (c :: ·)
  | offset, some (start, inner), c :: s =>
    if c = '(' then foldFrom (offset + 1) (some (start, inner + 1)) s
    else if c = ')' then
      match inner with
      | 0 => (foldFrom (offset + 1) none s).map (placeholder :: ·)
      | inner + 1 => foldFrom (offset + 1) (some (start, inner)) s
    else foldFrom (offset + 1) (some (start, inner)) s

/-- Replace each outermost group by the placeholder. -/
def fold (s : Text) : Except Mismatch Text := foldFrom 0 none s

end Offside.Group
