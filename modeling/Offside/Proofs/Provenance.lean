import Mathlib.Data.List.Forall2
import Mathlib.Data.List.Nodup
import Offside.Proofs.Forest

/-!
# Where the nodes of an outline come from

Every node of an outline is made of a line of the file (`Node.MadeOf`). In preorder, the nodes are
made of the lines that have a place one by one (`IsOutline.forall₂_madeOf`), and no two nodes
are made of the same line (`IsOutline.eq_of_number_eq`). So what is said of the nodes of an outline
in order can be said of the lines.
-/

namespace Offside

/-! ### Nodes and lines -/

/-- A node is made of a line of the file. -/
inductive Node.MadeOf (lines : List Text) (line : Line) : Node → Prop
  | subtree {tokens : Int} {children : List Node} :
      Node.MadeOf lines line (.subtree line tokens children)
  | continuation {text : Text} (pipe : line.HasPipe)
      (text_eq : text = line.indent ++ (markAt lines line).toList ++ line.content.drop 1) :
      Node.MadeOf lines line (.continuation text line.number)

theorem Node.MadeOf.number_eq {lines : List Text} {line : Line} {node : Node}
    (h : node.MadeOf lines line) : node.number = line.number := by
  cases h <;> rfl

theorem Node.MadeOf.text_eq {lines : List Text} {line : Line} {text : Text} {number : Int}
    (h : Node.MadeOf lines line (.continuation text number)) :
    text = line.indent ++ (markAt lines line).toList ++ line.content.drop 1 := by
  cases h
  assumption

/-- A node of a forest is one of its trees, or below the line of one. -/
theorem Node.mem_flatten_cases {node : Node} {nodes : List Node} (h : node ∈ Node.flatten nodes) :
    node ∈ nodes ∨ ∃ (line : Line) (tokens : Int) (children : List Node),
      .subtree line tokens children ∈ nodes ∧ node ∈ Node.flatten children := by
  rw [Node.flatten_eq_flatMap, List.mem_flatMap] at h
  obtain ⟨root, hroot, hnode⟩ := h
  cases root with
  | continuation text number =>
    rw [Node.flatten_continuation, List.mem_singleton] at hnode
    exact .inl (hnode ▸ hroot)
  | subtree line tokens children =>
    rw [Node.flatten_subtree, List.mem_cons] at hnode
    rcases hnode with rfl | hnode
    · exact .inl hroot
    · exact .inr ⟨line, tokens, children, hroot, hnode⟩

theorem Nested.exists_madeOf {lines : List Text} {parent : Int} {nodes : List Node}
    (h : Nested lines parent nodes) :
    ∀ node ∈ Node.flatten nodes, ∃ line ∈ outlineLines lines, node.MadeOf lines line := by
  induction h with
  | intro siblings below ih =>
    intro node hnode
    rcases Node.mem_flatten_cases hnode with hnode | ⟨line, tokens, children, hmem, hnode⟩
    · cases node with
      | subtree line tokens children =>
        exact ⟨line, (siblings.counted line tokens children hnode).1, .subtree⟩
      | continuation text number =>
        obtain ⟨line, hline, rfl, -, hpipe, htext⟩ := siblings.continued text number hnode
        exact ⟨line, hline, .continuation hpipe htext⟩
    · exact ih line tokens children hmem node hnode

/-- Every node of a forest in order that is a line has its tokens counted. -/
theorem Nested.isChildLine {lines : List Text} {parent : Int} {nodes : List Node}
    (h : Nested lines parent nodes) {line : Line} {tokens : Int} {children : List Node} :
    .subtree line tokens children ∈ Node.flatten nodes → IsChildLine lines line tokens := by
  induction h with
  | intro siblings below ih =>
    intro hnode
    rcases Node.mem_flatten_cases hnode with hnode | ⟨above, count, nodes', hmem, hnode⟩
    · exact siblings.counted line tokens children hnode
    · exact ih above count nodes' hmem hnode

/-- The nodes of an outline are made of the lines of the file, one by one and in order. -/
theorem IsOutline.forall₂_madeOf {lines : List Text} {roots : List Node}
    (h : IsOutline lines roots) :
    List.Forall₂ (fun node line => Node.MadeOf lines line node) (Node.flatten roots)
      (outlineLines lines) := by
  have hnumbers : List.Forall₂ (fun node line => Node.number node = Line.number line)
      (Node.flatten roots) (outlineLines lines) := by
    have hlisted := h.listed
    rwa [Node.numbers, ← List.forall₂_eq_eq_eq, List.forall₂_map_left_iff,
      List.forall₂_map_right_iff] at hlisted
  refine List.forall₂_iff_zip.mpr ⟨hnumbers.length_eq, fun {node line} hmem => ?_⟩
  obtain ⟨hnode, hline⟩ := List.of_mem_zip hmem
  obtain ⟨line', hline', hmade⟩ := h.nested.exists_madeOf node hnode
  -- the node and the line at its place have one number, and so the line is the one it is made of
  have heq : line' = line := by
    refine eq_of_number_eq hline' hline ?_
    rw [← hmade.number_eq, List.forall₂_zip hnumbers hmem]
  exact heq ▸ hmade

/-- Lines have different numbers. -/
theorem nodup_map_number (lines : List Text) : ((outlineLines lines).map Line.number).Nodup := by
  induction lines using List.reverseRecOn with
  | nil => simp [outlineLines]
  | append_singleton lines text ih =>
    cases hs : (⟨text, lines.length⟩ : Line).skipped with
    | true => rwa [outlineLines_concat_of_skipped hs]
    | false =>
      rw [outlineLines_concat_of_not_skipped hs, List.map_append, List.nodup_append]
      refine ⟨ih, by simp, fun n hn m hm => ?_⟩
      obtain ⟨line, hline, rfl⟩ := List.mem_map.mp hn
      have hlt := index_lt_of_mem_outlineLines hline
      simp only [List.map_cons, List.map_nil, List.mem_singleton] at hm
      simp only [hm, Line.number]
      omega

theorem IsOutline.eq_of_number_eq {lines : List Text} {roots : List Node} {node node' : Node}
    (h : IsOutline lines roots) (hnode : node ∈ Node.flatten roots)
    (hnode' : node' ∈ Node.flatten roots) (hnumber : node.number = node'.number) :
    node = node' := by
  have hnodup : ((Node.flatten roots).map Node.number).Nodup := by
    rw [← Node.numbers, h.listed]
    exact nodup_map_number lines
  exact List.inj_on_of_nodup_map hnodup hnode hnode' hnumber

/-- The first root of an outline is the first line that has a place. -/
theorem IsOutline.head?_outlineLines {lines : List Text} {line : Line} {tokens : Int}
    {children nodes : List Node} (h : IsOutline lines (.subtree line tokens children :: nodes)) :
    (outlineLines lines).head? = some line := by
  have hmade := h.forall₂_madeOf
  rw [Node.flatten_cons, Node.flatten_subtree, List.cons_append,
    List.forall₂_cons_left_iff] at hmade
  obtain ⟨line', rest, hmade, -, hlines⟩ := hmade
  cases hmade with
  | subtree => rw [hlines, List.head?_cons]

/-! ### Continuations and marks -/

/-- The number of the line that a continuation comes from. -/
def Node.continuationNumber? : Node → Option Int
  | .subtree _ _ _ => none
  | .continuation _ number => some number

/-- The numbers of the lines that are continuations in a forest. -/
def Node.continuationNumbers (nodes : List Node) : List Int :=
  (Node.flatten nodes).filterMap Node.continuationNumber?

theorem Node.mem_continuationNumbers {nodes : List Node} {number : Int} :
    number ∈ Node.continuationNumbers nodes ↔
      ∃ text, .continuation text number ∈ Node.flatten nodes := by
  rw [Node.continuationNumbers, List.mem_filterMap]
  constructor
  · rintro ⟨node, hnode, hnumber⟩
    cases node with
    | subtree line tokens children => simp [Node.continuationNumber?] at hnumber
    | continuation text n =>
      obtain rfl : n = number := Option.some.inj hnumber
      exact ⟨text, hnode⟩
  · rintro ⟨text, hnode⟩
    exact ⟨_, hnode, rfl⟩

/-- The mark of a file is an indentation character of one of its lines. -/
theorem exists_mem_indent_of_firstMark {lines : List Text} {mark : Char}
    (h : firstMark lines = some mark) : ∃ line ∈ outlineLines lines, mark ∈ line.indent :=
  List.mem_flatMap.mp (List.mem_of_mem_head? h)

/-- The lines of the front of a file are those that come before its end. -/
theorem mem_outlineLines_take {lines : List Text} {count : Nat} {line : Line} :
    line ∈ outlineLines (lines.take count) ↔ line ∈ outlineLines lines ∧ line.index < count := by
  rw [mem_outlineLines, mem_outlineLines, and_assoc, ← exists_and_right]
  refine and_congr_right fun _ => exists_congr fun i => ?_
  rw [List.getElem?_take]
  grind

/-- The mark as of a line comes from a line that is not after it. -/
theorem exists_mem_indent_of_markAt {lines : List Text} {line : Line} {mark : Char}
    (h : markAt lines line = some mark) :
    ∃ line' ∈ outlineLines lines, line'.number ≤ line.number ∧ mark ∈ line'.indent := by
  obtain ⟨line', hline', hmark⟩ := exists_mem_indent_of_firstMark h
  obtain ⟨hmem, hlt⟩ := mem_outlineLines_take.mp hline'
  obtain ⟨-, i, hi, -⟩ := mem_outlineLines.mp hmem
  refine ⟨line', hmem, ?_, hmark⟩
  simp only [Line.number] at hlt ⊢
  omega

/-- A line that is not before an indented line has a mark. -/
theorem exists_markAt {lines : List Text} {line line' : Line} (h : line' ∈ outlineLines lines)
    (hle : line'.number ≤ line.number) (hindent : line'.indent ≠ []) :
    ∃ mark, markAt lines line = some mark := by
  refine Option.ne_none_iff_exists'.mp fun hnone => hindent ?_
  rw [markAt, firstMark, List.head?_eq_none_iff, List.flatMap_eq_nil_iff] at hnone
  refine hnone line' (mem_outlineLines_take.mpr ⟨h, ?_⟩)
  simp only [Line.number] at hle ⊢
  omega

end Offside
