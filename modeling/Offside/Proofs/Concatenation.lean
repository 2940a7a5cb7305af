import Offside.Compilation
import Offside.Proofs.Provenance
import Offside.Proofs.Reading
import Offside.Proofs.Signal

/-!
# One file behind another

If two files are put one behind the other, their outlines are too, with the line numbers of the
second moved down, and so are their records (`read_append`). For this the files have to agree where
the reader carries something over the seam (`Joins`): the width of the roots, the indentation
character, the line that was read last, which a pipe would continue, and the mark that
stands in for the pipe of a continuation.

The reader does not appear in the proof. The outline of the second file, moved down, is in order in
the longer file (`Nested.shift`), so the two outlines together are an outline of it, and it has
only one. What is asked about marks is exactly what is needed (`keepsMarks_of_read_append`).
-/

namespace Offside

/-! ### Moving nodes down -/

mutual

/-- The tree, further down in a file by the given number of lines. -/
def Node.shift (count : Nat) : Node → Node
  | .subtree line tokens children =>
    .subtree (line.shift count) tokens (Node.shiftAll count children)
  | .continuation text number => .continuation text (number + count)

/-- The trees of a forest, further down in a file. -/
def Node.shiftAll (count : Nat) : List Node → List Node
  | [] => []
  | node :: nodes => node.shift count :: Node.shiftAll count nodes

end

namespace Node

variable (count : Nat)

theorem shiftAll_eq_map (nodes : List Node) : shiftAll count nodes = nodes.map (shift count) := by
  induction nodes with
  | nil => rfl
  | cons node nodes ih => rw [shiftAll, ih, List.map_cons]

theorem shift_subtree (line : Line) (tokens : Int) (children : List Node) :
    (Node.subtree line tokens children).shift count =
      .subtree (line.shift count) tokens (children.map (shift count)) := by
  rw [shift, shiftAll_eq_map]

theorem number_shift (node : Node) : (node.shift count).number = node.number + count := by
  cases node with
  | subtree line tokens children => exact line.number_shift count
  | continuation text number => rfl

theorem isSubtree_shift {node : Node} : (node.shift count).IsSubtree ↔ node.IsSubtree := by
  cases node <;> exact Iff.rfl

theorem precedes_shift {node next : Node} :
    (node.shift count).Precedes (next.shift count) ↔ node.Precedes next := by
  cases node <;> cases next <;> exact Iff.rfl

theorem flatten_map_shift (nodes : List Node) :
    flatten (nodes.map (shift count)) = (flatten nodes).map (shift count) :=
  flatten_map (fun line tokens children => ⟨_, _, shift_subtree count line tokens children⟩)
    (fun _ _ => ⟨_, _, rfl⟩) nodes

theorem numbers_map_shift (nodes : List Node) :
    numbers (nodes.map (shift count)) = (numbers nodes).map (· + (count : Int)) := by
  rw [numbers, flatten_map_shift, List.map_map, numbers, List.map_map]
  exact List.map_congr_left fun node _ => number_shift count node

theorem filterMap_width?_map_shift (nodes : List Node) :
    (nodes.map (shift count)).filterMap width? = nodes.filterMap width? := by
  rw [List.filterMap_map]
  refine List.filterMap_congr fun node _ => ?_
  cases node <;> rfl

/-- The record of a tree does not depend on where it is. -/
theorem record_shift (node : Node) : (node.shift count).record = node.record := by
  induction node using Node.induction with
  | continuation text number => rfl
  | subtree line tokens children ih =>
    have hbelow : (children.map (shift count)).map record = children.map record := by
      rw [List.map_map]
      exact List.map_congr_left ih
    rw [shift_subtree, record, records_eq_map, hbelow, needsParens_map, record, records_eq_map]
    rfl

variable {count}

theorem exists_of_subtree_mem_map_shift {nodes children' : List Node} {line' : Line} {tokens : Int}
    (h : .subtree line' tokens children' ∈ nodes.map (shift count)) :
    ∃ line children, .subtree line tokens children ∈ nodes ∧ line' = line.shift count ∧
      children' = children.map (shift count) := by
  obtain ⟨node, hnode, heq⟩ := List.mem_map.mp h
  cases node with
  | continuation text number => simp [shift] at heq
  | subtree line t children =>
    rw [shift_subtree, Node.subtree.injEq] at heq
    obtain ⟨rfl, rfl, rfl⟩ := heq
    exact ⟨line, children, hnode, rfl, rfl⟩

theorem exists_of_continuation_mem_map_shift {nodes : List Node} {text : Text} {number' : Int}
    (h : .continuation text number' ∈ nodes.map (shift count)) :
    ∃ number, .continuation text number ∈ nodes ∧ number' = number + count := by
  obtain ⟨node, hnode, heq⟩ := List.mem_map.mp h
  cases node with
  | subtree line tokens children => simp [shift] at heq
  | continuation text' number =>
    rw [shift, Node.continuation.injEq] at heq
    obtain ⟨rfl, rfl⟩ := heq
    exact ⟨number, hnode, rfl⟩

end Node

/-! ### Forests in a longer file -/

section Shift

variable {front lines : List Text}

theorem shift_mem_outlineLines {line : Line} (h : line ∈ outlineLines lines) :
    line.shift front.length ∈ outlineLines (front ++ lines) := by
  rw [outlineLines_append]
  exact List.mem_append_right _ (List.mem_map_of_mem h)

/-- The mark of a longer file is that of its front, if the front has one. -/
theorem markAt_shift {line : Line} (h : line ∈ outlineLines lines) :
    markAt (front ++ lines) (line.shift front.length) =
      (firstMark front).or (markAt lines line) := by
  obtain ⟨-, i, hi, -⟩ := mem_outlineLines.mp h
  have hnumber : (line.shift front.length).number.toNat = front.length + line.number.toNat := by
    rw [Line.number_shift, Line.number]
    omega
  rw [markAt, hnumber, List.take_length_add_append, firstMark_append, markAt]

/-- Siblings in order are in order further down in a longer file, if the mark of its front does not
change their continuations. -/
theorem Siblings.shift {parent : Int} {nodes : List Node} (h : Siblings lines parent nodes)
    (hmark : ∀ (text : Text) (number : Int), .continuation text number ∈ nodes →
      ∀ line ∈ outlineLines lines, line.number = number →
        (firstMark front).or (markAt lines line) = markAt lines line) :
    Siblings (front ++ lines) parent (nodes.map (Node.shift front.length)) := by
  obtain ⟨counted, ⟨width, hwider, haligned⟩, continued, apart⟩ := h
  refine ⟨fun line' tokens children' hmem' => ?_,
    ⟨width, hwider, fun line' tokens children' hmem' => ?_⟩, fun text number' hmem' => ?_, ?_⟩
  · obtain ⟨line, children, hmem, rfl, -⟩ := Node.exists_of_subtree_mem_map_shift hmem'
    obtain ⟨hline, hcount⟩ := counted line tokens children hmem
    exact ⟨shift_mem_outlineLines hline, hcount⟩
  · obtain ⟨line, children, hmem, rfl, -⟩ := Node.exists_of_subtree_mem_map_shift hmem'
    exact haligned line tokens children hmem
  · obtain ⟨number, hmem, rfl⟩ := Node.exists_of_continuation_mem_map_shift hmem'
    obtain ⟨line, hline, hnumber, hwidth, hpipe, htext⟩ := continued text number hmem
    refine ⟨line.shift front.length, shift_mem_outlineLines hline, ?_, hwidth, hpipe, ?_⟩
    · rw [line.number_shift, hnumber]
    · rw [markAt_shift hline, hmark text number hmem line hline hnumber]
      exact htext
  · rw [List.isChain_map]
    exact apart.imp fun _ _ hprec => (Node.precedes_shift front.length).mpr hprec

theorem Nested.shift {parent : Int} {nodes : List Node} (h : Nested lines parent nodes)
    (hmark : ∀ number ∈ Node.continuationNumbers nodes, ∀ line ∈ outlineLines lines,
      line.number = number → (firstMark front).or (markAt lines line) = markAt lines line) :
    Nested (front ++ lines) parent (nodes.map (Node.shift front.length)) := by
  induction h with
  | @intro parent nodes siblings below ih =>
    refine .intro (siblings.shift fun text number hmem => ?_) fun line' tokens children' hmem' => ?_
    · exact hmark number (Node.mem_continuationNumbers.mpr ⟨text, Node.mem_flatten_self hmem⟩)
    · obtain ⟨line, children, hmem, rfl, rfl⟩ := Node.exists_of_subtree_mem_map_shift hmem'
      refine ih line tokens children hmem fun number hnumber => hmark number ?_
      obtain ⟨text, htext⟩ := Node.mem_continuationNumbers.mp hnumber
      exact Node.mem_continuationNumbers.mpr ⟨text, Node.mem_flatten_of_mem_children hmem htext⟩

end Shift

/-- Siblings of one width can be put one behind the other. -/
theorem Siblings.join {lines : List Text} {parent : Int} {nodes nodes' : List Node}
    (h : Siblings lines parent nodes) (h' : Siblings lines parent nodes')
    (hwidths : ∀ width ∈ nodes.filterMap Node.width?, ∀ width' ∈ nodes'.filterMap Node.width?,
      width = width')
    (hprecedes : ∀ node ∈ nodes.getLast?, ∀ next ∈ nodes'.head?, node.Precedes next) :
    Siblings lines parent (nodes ++ nodes') := by
  obtain ⟨counted, ⟨width, hwider, haligned⟩, continued, apart⟩ := h
  obtain ⟨counted', ⟨width', hwider', haligned'⟩, continued', apart'⟩ := h'
  refine ⟨fun line tokens children hmem => ?_, ?_, fun text number hmem => ?_,
    List.isChain_append.mpr ⟨apart, apart', hprecedes⟩⟩
  · rcases List.mem_append.mp hmem with hmem | hmem
    · exact counted line tokens children hmem
    · exact counted' line tokens children hmem
  · by_cases hchild : ∃ (line : Line) (tokens : Int) (children : List Node),
        .subtree line tokens children ∈ nodes
    · obtain ⟨line, tokens, children, hline⟩ := hchild
      refine ⟨width, hwider, fun l t c hmem => ?_⟩
      rcases List.mem_append.mp hmem with hmem | hmem
      · exact haligned l t c hmem
      · have hsame := hwidths line.width (List.mem_filterMap.mpr ⟨_, hline, rfl⟩) l.width
          (List.mem_filterMap.mpr ⟨_, hmem, rfl⟩)
        rw [← hsame, haligned line tokens children hline]
    · refine ⟨width', hwider', fun l t c hmem => ?_⟩
      rcases List.mem_append.mp hmem with hmem | hmem
      · exact absurd ⟨l, t, c, hmem⟩ hchild
      · exact haligned' l t c hmem
  · rcases List.mem_append.mp hmem with hmem | hmem
    · exact continued text number hmem
    · exact continued' text number hmem

theorem Nested.join {lines : List Text} {parent : Int} {nodes nodes' : List Node}
    (h : Nested lines parent nodes) (h' : Nested lines parent nodes')
    (hwidths : ∀ width ∈ nodes.filterMap Node.width?, ∀ width' ∈ nodes'.filterMap Node.width?,
      width = width')
    (hprecedes : ∀ node ∈ nodes.getLast?, ∀ next ∈ nodes'.head?, node.Precedes next) :
    Nested lines parent (nodes ++ nodes') := by
  obtain ⟨siblings, below⟩ := h
  obtain ⟨siblings', below'⟩ := h'
  refine .intro (siblings.join siblings' hwidths hprecedes) fun line tokens children hmem => ?_
  rcases List.mem_append.mp hmem with hmem | hmem
  · exact below line tokens children hmem
  · exact below' line tokens children hmem

/-! ### The seam -/

/-- The mark of the first file replaces no pipe of the second, with the outline `roots'`: the first
file has no mark, or no continuation of the second comes before the first indented line of its own
file. In a file without indented lines every continuation does. -/
def KeepsMarks (first second : List Text) (roots' : List Node) : Prop :=
  (∀ line ∈ outlineLines first, line.indent = []) ∨
    ∀ number ∈ Node.continuationNumbers roots',
      ∃ line ∈ outlineLines second, line.number ≤ number ∧ line.indent ≠ []

/-- Two files agree on what the reader carries over from the first, with the outline `roots`, to
the second, with the outline `roots'`. -/
structure Joins (first second : List Text) (roots roots' : List Node) : Prop where
  /-- The roots of the two files have one width. -/
  widths : ∀ width ∈ roots.filterMap Node.width?, ∀ width' ∈ roots'.filterMap Node.width?,
    width = width'
  /-- The files are indented with one character. -/
  indents : ∀ line ∈ outlineLines first, ∀ c ∈ line.indent,
    ∀ line' ∈ outlineLines second, ∀ c' ∈ line'.indent, c = c'
  /-- The second file does not continue the last root of the first. -/
  pipe : ∀ line ∈ (outlineLines second).head?, ¬ line.HasPipe
  /-- The continuations of the second file are as they are without the first. -/
  marks : KeepsMarks first second roots'

section Joins

variable {first second : List Text} {roots roots' : List Node}

/-- The mark of the first file does not change the continuations of the second. -/
theorem Joins.or_markAt (h : Joins first second roots roots') {line : Line}
    (hnumber : line.number ∈ Node.continuationNumbers roots') :
    (firstMark first).or (markAt second line) = markAt second line := by
  cases hfirst : firstMark first with
  | none => rw [Option.none_or]
  | some mark =>
    obtain ⟨line₁, hline₁, hmark⟩ := exists_mem_indent_of_firstMark hfirst
    rcases h.marks with hplain | hlater
    · simp [hplain line₁ hline₁] at hmark
    · obtain ⟨line₂, hline₂, hle, hindent⟩ := hlater line.number hnumber
      obtain ⟨mark', hmark'⟩ := exists_markAt hline₂ hle hindent
      obtain ⟨line₀, hline₀, -, hin⟩ := exists_mem_indent_of_markAt hmark'
      rw [hmark', Option.some_or, h.indents line₁ hline₁ mark hmark line₀ hline₀ mark' hin]

/-- The two files are indented with one character. -/
theorem Joins.uniform (h : Joins first second roots roots') (houtline : IsOutline first roots)
    (houtline' : IsOutline second roots') :
    ∃ mark : Char, ∀ line ∈ outlineLines (first ++ second), ∀ c ∈ line.indent, c = mark := by
  obtain ⟨mark, hmark⟩ := houtline.uniform
  obtain ⟨mark', hmark'⟩ := houtline'.uniform
  have hsecond : ∀ line ∈ outlineLines (first ++ second), line ∈ outlineLines first ∨
      ∃ line' ∈ outlineLines second, line'.indent = line.indent := by
    intro line hline
    rw [outlineLines_append, List.mem_append, List.mem_map] at hline
    rcases hline with hline | ⟨line', hline', rfl⟩
    · exact .inl hline
    · exact .inr ⟨line', hline', rfl⟩
  by_cases hplain : ∀ line ∈ outlineLines first, line.indent = []
  · refine ⟨mark', fun line hline c hc => ?_⟩
    rcases hsecond line hline with hline | ⟨line', hline', heq⟩
    · simp [hplain line hline] at hc
    · exact hmark' line' hline' c (heq ▸ hc)
  · -- an indentation of the first file fixes the character for both
    simp only [not_forall] at hplain
    obtain ⟨line₁, hline₁, hne⟩ := hplain
    obtain ⟨c₁, hc₁⟩ := List.exists_mem_of_ne_nil _ hne
    refine ⟨mark, fun line hline c hc => ?_⟩
    rcases hsecond line hline with hline | ⟨line', hline', heq⟩
    · exact hmark line hline c hc
    · rw [← h.indents line₁ hline₁ c₁ hc₁ line' hline' c (heq ▸ hc)]
      exact hmark line₁ hline₁ c₁ hc₁

/-- No root of the second file continues a root of the first. -/
theorem Joins.precedes (h : Joins first second roots roots') (houtline' : IsOutline second roots') :
    ∀ node ∈ roots.getLast?, ∀ next ∈ (roots'.map (Node.shift first.length)).head?,
      node.Precedes next := by
  intro node _ next hnext
  cases roots' with
  | nil => simp at hnext
  | cons root rest =>
    obtain rfl : root.shift first.length = next := by simpa using hnext
    cases root with
    | continuation text number => exact (houtline'.rooted _ List.mem_cons_self).elim
    | subtree line tokens children =>
      have hpipe := h.pipe line houtline'.head?_outlineLines
      exact Node.precedes_subtree_iff.mpr fun _ => hpipe

/-- The outline of the second file, moved down, goes on where that of the first ends. -/
theorem Joins.isOutline_append (h : Joins first second roots roots')
    (houtline : IsOutline first roots) (houtline' : IsOutline second roots') :
    IsOutline (first ++ second) (roots ++ roots'.map (Node.shift first.length)) := by
  have hnested := houtline.nested.append second
  have hnested' : Nested (first ++ second) Reader.rootWidth
      (roots'.map (Node.shift first.length)) := by
    refine houtline'.nested.shift fun number hnumber line _ hline => ?_
    exact h.or_markAt (hline ▸ hnumber)
  refine ⟨?_, ?_, ?_, h.uniform houtline houtline'⟩
  · rw [Node.numbers_append, Node.numbers_map_shift, houtline.listed, houtline'.listed,
      outlineLines_append, List.map_append, List.map_map, List.map_map]
    refine congrArg (_ ++ ·) (List.map_congr_left fun line _ => ?_)
    exact (line.number_shift first.length).symm
  · intro node hnode
    rcases List.mem_append.mp hnode with hnode | hnode
    · exact houtline.rooted node hnode
    · obtain ⟨node', hnode', rfl⟩ := List.mem_map.mp hnode
      exact (Node.isSubtree_shift first.length).mpr (houtline'.rooted node' hnode')
  · refine hnested.join hnested' ?_ (h.precedes houtline')
    rw [Node.filterMap_width?_map_shift]
    exact h.widths

end Joins

/-- **Files are compiled one by one.** If two files agree where the reader carries something over,
then the outline of the second behind the first is that of the first, followed by that of the second
with its line numbers moved down, and the records are those of the first, followed by those of the
second. -/
theorem read_append {first second : List Text} {filename : Text} {doc doc' : Document}
    (hread : Document.read first filename = .ok doc)
    (hread' : Document.read second filename = .ok doc')
    (hjoins : Joins first second doc.roots doc'.roots) :
    Document.read (first ++ second) filename =
        .ok ⟨doc.roots ++ doc'.roots.map (Node.shift first.length), filename⟩ ∧
      ∃ records records', transpile first filename = .ok records ∧
        transpile second filename = .ok records' ∧
        transpile (first ++ second) filename = .ok (records ++ records') := by
  have houtline := hjoins.isOutline_append (isOutline_of_read hread).2 (isOutline_of_read hread').2
  have happend := read_of_isOutline houtline filename
  refine ⟨happend, doc.records, doc'.records, by rw [transpile, hread]; rfl,
    by rw [transpile, hread']; rfl, ?_⟩
  have hshift : (doc'.roots.map (Node.shift first.length)).map Node.record =
      doc'.roots.map Node.record := by
    rw [List.map_map]
    exact List.map_congr_left fun node _ => node.record_shift first.length
  have hrecords : (⟨doc.roots ++ doc'.roots.map (Node.shift first.length), filename⟩ :
      Document).records = doc.records ++ doc'.records := by
    simp only [Document.records, Node.records_eq_map, List.map_append, hshift]
  rw [transpile, happend, ← hrecords]
  rfl

/-- Both files are indented, and the pipe of the second comes after its first indented line. -/
theorem read_append_pipe :
    ∃ doc doc',
      Document.read ["a".toList, "  b c".toList] [] = .ok doc ∧
      Document.read ["d".toList, " e".toList, "|f".toList] [] = .ok doc' ∧
      Joins ["a".toList, "  b c".toList] ["d".toList, " e".toList, "|f".toList]
        doc.roots doc'.roots ∧
      Document.read
          (["a".toList, "  b c".toList] ++ ["d".toList, " e".toList, "|f".toList]) [] =
        .ok ⟨doc.roots ++ doc'.roots.map (Node.shift 2), []⟩ ∧
      ∃ records records', transpile ["a".toList, "  b c".toList] [] = .ok records ∧
        transpile ["d".toList, " e".toList, "|f".toList] [] = .ok records' ∧
        transpile (["a".toList, "  b c".toList] ++ ["d".toList, " e".toList, "|f".toList]) [] =
          .ok (records ++ records') := by
  have hread : Document.read ["a".toList, "  b c".toList] [] =
      .ok ⟨[.subtree ⟨"a".toList, 0⟩ 1 [.subtree ⟨"  b c".toList, 1⟩ 2 []]], []⟩ := by
    simp only [String.reduceToList]
    rfl
  have hread' : Document.read ["d".toList, " e".toList, "|f".toList] [] =
      .ok ⟨[.subtree ⟨"d".toList, 0⟩ 1
        [.subtree ⟨" e".toList, 1⟩ 1 [], .continuation " f".toList 3]], []⟩ := by
    simp only [String.reduceToList]
    rfl
  have hindent : (outlineLines ["a".toList, "  b c".toList]).flatMap Line.indent =
      [' ', ' '] := by decide +kernel
  have hindent' : (outlineLines ["d".toList, " e".toList, "|f".toList]).flatMap Line.indent =
      [' '] := by decide +kernel
  have hjoins : Joins ["a".toList, "  b c".toList] ["d".toList, " e".toList, "|f".toList]
      [.subtree ⟨"a".toList, 0⟩ 1 [.subtree ⟨"  b c".toList, 1⟩ 2 []]]
      [.subtree ⟨"d".toList, 0⟩ 1
        [.subtree ⟨" e".toList, 1⟩ 1 [], .continuation " f".toList 3]] := by
    refine ⟨by decide +kernel, ?_, ?_, .inr ?_⟩
    · intro line hline c hc line' hline' c' hc'
      have hspace : c ∈ [' ', ' '] := hindent ▸ List.mem_flatMap_of_mem hline hc
      have hspace' : c' ∈ [' '] := hindent' ▸ List.mem_flatMap_of_mem hline' hc'
      simp_all
    · intro line hline
      have hhead : (outlineLines ["d".toList, " e".toList, "|f".toList]).head? =
          some ⟨"d".toList, 0⟩ := by decide +kernel
      obtain rfl := Option.some.inj (hhead.symm.trans hline)
      simp only [Line.HasPipe]
      decide +kernel
    · intro number hnumber
      obtain rfl : number = 3 := List.mem_singleton.mp hnumber
      exact ⟨⟨" e".toList, 1⟩, by decide +kernel, by decide, by decide +kernel⟩
  exact ⟨_, _, hread, hread', hjoins, read_append hread hread' hjoins⟩

/-- What is asked of continuations cannot be dropped: where the outline of the second file goes on
behind the first unchanged, no mark is carried over. -/
theorem keepsMarks_of_read_append {first second : List Text} {filename filename' : Text}
    {doc' doc₂ : Document} {nodes : List Node} (hread' : Document.read second filename = .ok doc')
    (happend : Document.read (first ++ second) filename' = .ok doc₂)
    (hroots : doc₂.roots = nodes ++ doc'.roots.map (Node.shift first.length)) :
    KeepsMarks first second doc'.roots := by
  obtain ⟨-, houtline'⟩ := isOutline_of_read hread'
  obtain ⟨-, houtline⟩ := isOutline_of_read happend
  cases hfirst : firstMark first with
  | none =>
    rw [firstMark, List.head?_eq_none_iff, List.flatMap_eq_nil_iff] at hfirst
    exact .inl hfirst
  | some mark =>
    refine .inr fun number hnumber => ?_
    obtain ⟨text, htext⟩ := Node.mem_continuationNumbers.mp hnumber
    have hshifted : .continuation text (number + first.length) ∈ Node.flatten doc₂.roots := by
      rw [hroots, Node.flatten_append, Node.flatten_map_shift]
      exact List.mem_append_right _ (List.mem_map_of_mem htext)
    obtain ⟨line, hline, hmade⟩ := houtline'.nested.exists_madeOf _ htext
    obtain ⟨line₂, hline₂, hmade₂⟩ := houtline.nested.exists_madeOf _ hshifted
    have heq : line₂ = line.shift first.length := by
      refine eq_of_number_eq hline₂ (shift_mem_outlineLines hline) ?_
      rw [← hmade₂.number_eq, line.number_shift, ← hmade.number_eq]
      rfl
    have hsame := hmade.text_eq.symm.trans hmade₂.text_eq
    rw [heq, markAt_shift hline, hfirst, Option.some_or] at hsame
    -- both texts have the indentation in front and the rest of the content behind
    have hmark : (markAt second line).toList = [mark] :=
      List.append_cancel_left (List.append_cancel_right hsame)
    obtain ⟨line', hline', hle, hin⟩ :=
      exists_mem_indent_of_markAt (Option.mem_toList.mp (hmark ▸ List.mem_singleton_self mark))
    exact ⟨line', hline', hle.trans_eq hmade.number_eq.symm, List.ne_nil_of_mem hin⟩

end Offside
