import Offside.Proofs.Counting
import Offside.Proofs.Scanning

/-!
# Counting with one character for each literal

A mask keeps the length of a text, so that an offset in it is an offset in the text. For the number
of tokens alone it would do to write a single character for each literal, and this is how the
counting is specified (`collapsedCount`):

* one character takes the place of each match of the pattern for literals;
* the text is cut off in front of the first semicolon that is left;
* another character takes the place of each outermost group, unless a parenthesis has no partner;
* the tokens are the fragments between runs of spaces.

The two texts have different lengths, but both act alike on a counter that reads them once
(`run_collapseAll`). So the number of tokens is the same, and one algorithm fails exactly if the
other one does (`count_eq_collapsedCount`). It does not matter which characters are written.
-/

namespace Offside

/-! ### The stages -/

/-- Write a character in the place of each thing found in a text, from left to right. What is found
at a place is given by the text that it leaves behind. -/
def collapseFound (find : Text → Option Text) (hole : Char) : Text → Text
  | [] => []
  | c :: s =>
    match find (c :: s) with
    | none => c :: collapseFound find hole s
    | some rest =>
      if rest.length ≤ s.length then hole :: collapseFound find hole rest
      else c :: collapseFound find hole s
termination_by s => s.length

/-- Write a character in the place of each match of a pattern, each behind the end of the one
before. -/
def Pattern.collapseAll (p : Pattern) (hole : Char) (s : Text) : Text :=
  collapseFound p.match? hole s

/-- What is between the runs of spaces of a text, where it is not empty. -/
def fragments (s : Text) : List Text :=
  match _h : s.dropWhile (· == ' ') with
  | [] => []
  | c :: t => (c :: t.takeWhile (· != ' ')) :: fragments (t.dropWhile (· != ' '))
termination_by s.length
decreasing_by
  have hle := (List.dropWhile_sublist (· == ' ') (l := s)).length_le
  have hle' := (List.dropWhile_sublist (· != ' ') (l := t)).length_le
  simp only [_h, List.length_cons] at hle
  omega

/-- The number of tokens of a content, with one character for each literal and each group. -/
def Token.collapsedCount (literal group : Hole) (content : Text) : Option Nat :=
  let masked := Pattern.literal.collapseAll literal.char content
  let uncommented := masked.takeWhile (· != Comment.marker)
  (Group.collapse group.char 0 uncommented).map fun folded => (fragments folded).length

/-! ### Literals -/

namespace Literal

theorem mask_cons_of_match?_eq_none {c : Char} {s : Text}
    (h : Pattern.literal.match? (c :: s) = none) : mask (c :: s) = c :: mask s := by
  rw [Pattern.match?_literal] at h
  by_cases hc : c = '"'
  · rw [if_pos hc, Option.map_eq_none_iff] at h
    rw [mask, maskFrom, if_pos hc, h]
    rfl
  · exact mask_cons_of_ne hc s

/-- A match is masked as a whole, and what is behind it by itself. -/
theorem exists_mask_of_match? {c : Char} {s rest : Text}
    (h : Pattern.literal.match? (c :: s) = some rest) :
    rest.length ≤ s.length ∧
      ∃ n, mask (c :: s) = List.replicate (n + 1) placeholder ++ mask rest := by
  rw [Pattern.match?_literal] at h
  obtain ⟨rfl, hrest⟩ := Option.ite_none_right_eq_some.mp h
  obtain ⟨n, hclosing, rfl⟩ := Option.map_eq_some_iff.mp hrest
  exact ⟨(List.drop_sublist n s).length_le, n, mask_quote_of_closing? hclosing⟩

end Literal

namespace Token

/-- What is left in front of the comment acts on the counter as it does behind a mask. -/
theorem Counter.run_collapseAll (hole : Hole) (s : Text) (x : Counter) :
    x.run ((Pattern.literal.collapseAll hole.char s).takeWhile (· != Comment.marker)) =
      x.run (Comment.strip (Literal.mask s)) := by
  rw [Comment.strip_mask, Pattern.collapseAll]
  fun_induction collapseFound Pattern.literal.match? hole.char s generalizing x with
  | case1 => rfl
  | case2 c s hfind ih =>
    rw [Literal.mask_cons_of_match?_eq_none hfind, List.takeWhile_cons, List.takeWhile_cons]
    split
    · rw [run_cons, run_cons, funext ih]
    · rfl
  | case3 c s rest hfind hle ih =>
    obtain ⟨-, n, hmask⟩ := Literal.exists_mask_of_match? hfind
    have hmarker : Comment.marker ∉ List.replicate (n + 1) Literal.placeholder := fun hmem =>
      absurd (List.eq_of_mem_replicate hmem) (by decide)
    rw [hmask, List.takeWhile_append_of_pos (Text.bne_of_not_mem hmarker),
      List.takeWhile_cons_of_pos (by simpa using hole.ne_marker)]
    exact (solid_replicate hole 0).run_append (solid_replicate .literal n) ih x
  | case4 c s rest hfind hlt ih => exact absurd (Literal.exists_mask_of_match? hfind).1 hlt

/-! ### Fragments -/

theorem starts_dropWhile (s : Text) : starts false (s.dropWhile (· == ' ')) = starts false s := by
  induction s with
  | nil => rfl
  | cons c s ih =>
    by_cases hc : c = ' ' <;> simp [hc, starts, ih]

theorem starts_true_eq (s : Text) : starts true s = starts false (s.dropWhile (· != ' ')) := by
  induction s with
  | nil => rfl
  | cons c s ih =>
    by_cases hc : c = ' ' <;> simp [hc, starts, ih]

theorem length_fragments (s : Text) : (fragments s).length = starts false s := by
  fun_induction fragments s with
  | case1 s hdrop => rw [← starts_dropWhile, hdrop]; rfl
  | case2 s c t hdrop ih =>
    have hc : c ≠ ' ' := by
      simpa using Text.head?_dropWhile (p := (· == ' ')) (s := s) c (by rw [hdrop]; rfl)
    rw [List.length_cons, ih, ← starts_true_eq, ← starts_dropWhile s, hdrop, starts, if_neg hc]
    exact Nat.add_comm _ 1

theorem collapsedCount_eq (literal group : Hole) (content : Text) :
    collapsedCount literal group content = (count content).toOption := by
  rw [toOption_count, ← Counter.run_collapseAll literal, Counter.run_bind_total group.ne_space]
  simp [collapsedCount, Counter.expected, Counter.start, length_fragments]

/-- **The mask that keeps lengths refines the mask of one character.** The tokens of a content are
counted as they are specified, whatever characters stand for literals and groups, and the
specified algorithm fails exactly if the parentheses of the content do not match. -/
theorem count_eq_collapsedCount (literal group : Hole) (content : Text) :
    (∀ n, count content = .ok n ↔ collapsedCount literal group content = some n) ∧
      ((∃ e, count content = .error e) ↔ collapsedCount literal group content = none) := by
  rw [collapsedCount_eq]
  exact ⟨fun n => toOption_eq_some_iff.symm, toOption_eq_none_iff.symm⟩

example :
    collapsedCount ⟨'*', by decide⟩ ⟨'@', by decide⟩ "f \"a ( b\"(c \")\" d) ; (".toList =
      some 2 := by
  decide +kernel

end Token

end Offside
