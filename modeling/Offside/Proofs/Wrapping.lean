import Offside.Proofs.Meaning
import Offside.Proofs.Provenance

/-!
# Which nodes are wrapped

No node that is read is empty: the tokens of its line are at least one (`read_nodes_not_empty`). A
line has a place in the outline if there is a visible character in it other than a comment, where
all blanks of Unicode count as invisible. Its indentation is of spaces and tabs, and its tokens are
what spaces divide. So the first character behind the indentation is neither a space nor a comment
marker, and whatever it is, a quote, a parenthesis, a blank of another kind or any other character,
masking and folding leave a part of a token in its place (`Line.count_pos`).

It follows that the one kind of node without parentheses is a single token with nothing below it.
-/

namespace Offside

/-- What is wrapped stands behind the indentation, from an opening parenthesis to a closing one. -/
theorem Record.exists_wrap_true (indent text : Text) :
    ∃ body, Record.wrap true indent text = indent ++ '(' :: (body ++ [')']) := by
  simp only [Record.wrap, if_true, Record.closing]
  split
  · exact ⟨text ++ '\n' :: indent, by simp⟩
  · exact ⟨text, by simp⟩

/-- A node of an outline that is a line has a token. -/
theorem IsOutline.exists_tokens {lines : List Text} {roots : List Node} (h : IsOutline lines roots)
    {line : Line} {tokens : Int} {children : List Node}
    (hnode : .subtree line tokens children ∈ Node.flatten roots) :
    ∃ n : Nat, 0 < n ∧ tokens = n := by
  obtain ⟨hline, n, hcount, rfl⟩ := h.nested.isChildLine hnode
  exact ⟨n, Line.count_pos (mem_outlineLines.mp hline).1 hcount, rfl⟩

/-- **No node that is read is empty.** It has at least one token, and it is without parentheses
exactly if it has one token and nothing below it. So a block header with something below it is
wrapped. -/
theorem read_nodes_not_empty {lines : List Text} {filename : Text} {doc : Document}
    (hread : Document.read lines filename = .ok doc) {line : Line} {tokens : Int}
    {children : List Node} (hnode : .subtree line tokens children ∈ Node.flatten doc.roots) :
    1 ≤ tokens ∧
      (Node.needsParens tokens children = false ↔ children = [] ∧ tokens = 1) ∧
      (isHeader line.text = true → children ≠ [] →
        Node.needsParens tokens children = true ∧
          ∃ body, (Node.subtree line tokens children).record =
            line.indent ++ '(' :: (body ++ [')'])) := by
  obtain ⟨n, hn, rfl⟩ := (isOutline_of_read hread).2.exists_tokens hnode
  have hparens : Node.needsParens n children = false ↔ children = [] ∧ n = 1 :=
    Node.needsParens_eq_false_iff hn
  refine ⟨by omega, hparens.trans (and_congr_right fun _ => by omega), fun _ hchildren => ?_⟩
  have hwrapped : Node.needsParens n children = true := by
    rw [← Bool.not_eq_false, hparens]
    exact fun h => hchildren h.1
  refine ⟨hwrapped, ?_⟩
  rw [Node.record, hwrapped]
  exact Record.exists_wrap_true _ _

/-- A header above a line that starts with a no-break space, which is blank but not indentation and
divides no tokens. -/
theorem read_nodes_not_empty_header :
    let below : Node := .subtree ⟨"  \u00a0(a b) ; c".toList, 1⟩ 1 []
    let header : Node := .subtree ⟨"---".toList, 0⟩ 1 [below]
    Document.read ["---".toList, "  \u00a0(a b) ; c".toList] [] = .ok ⟨[header], []⟩ ∧
      ∃ body, header.record = '(' :: (body ++ [')']) := by
  intro below header
  have hread : Document.read ["---".toList, "  \u00a0(a b) ; c".toList] [] =
      .ok ⟨[header], []⟩ := by
    simp only [header, below, String.reduceToList]
    rfl
  have hnode : header ∈ Node.flatten [header] := Node.mem_flatten_self (by simp)
  have hwrapped := (read_nodes_not_empty hread hnode).2.2 (by decide) (List.cons_ne_nil below [])
  exact ⟨hread, hwrapped.2⟩

end Offside
