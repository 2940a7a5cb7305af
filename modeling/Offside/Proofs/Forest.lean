import Mathlib.Data.List.Basic
import Mathlib.Data.List.Chain
import Offside.Outline.Reader

/-!
# Forests of lines

Which forests are outlines of a file is said here without the reader. `IsOutline lines roots`
has four parts:

* the nodes in preorder are the lines that have a place, each once and in the order of the file;
* the roots are lines;
* at every node, and at the root of the file, the siblings are in order (`Siblings`): the child
  lines have one width, which is greater than the width of the parent, and the continuations
  have the width of the parent and a pipe in front;
* the file is indented with one character.

The last part of this module takes forests apart at their end. `Grows mark line parent nodes
nodes'` says that `nodes'` has one node more than `nodes`, made of `line`, behind all the
others. A forest that is not empty has grown by its last node from a forest that is in order as
well (`Nested.exists_grows`), and the growth of a forest in order is in order (`Nested.grows`).
-/

namespace Offside

/-! ### The lines of the outline -/

/-- The lines of a file that have a place in its outline, each with its position. -/
def outlineLines (lines : List Text) : List Line :=
  (lines.zipIdx.map fun (text, index) => (⟨text, index⟩ : Line)).filter (!·.skipped)

/-- The first indentation character of the lines that have a place. -/
def firstMark (lines : List Text) : Option Char :=
  ((outlineLines lines).flatMap Line.indent).head?

theorem outlineLines_concat (lines : List Text) (text : Text) :
    outlineLines (lines ++ [text]) =
      outlineLines lines ++ [(⟨text, lines.length⟩ : Line)].filter (!·.skipped) := by
  simp [outlineLines, List.zipIdx_append]

theorem outlineLines_concat_of_skipped {lines : List Text} {text : Text}
    (h : (⟨text, lines.length⟩ : Line).skipped = true) :
    outlineLines (lines ++ [text]) = outlineLines lines := by
  simp [outlineLines_concat, h]

theorem outlineLines_concat_of_not_skipped {lines : List Text} {text : Text}
    (h : (⟨text, lines.length⟩ : Line).skipped = false) :
    outlineLines (lines ++ [text]) = outlineLines lines ++ [⟨text, lines.length⟩] := by
  simp [outlineLines_concat, h]

theorem firstMark_concat_of_not_skipped {lines : List Text} {text : Text}
    (h : (⟨text, lines.length⟩ : Line).skipped = false) :
    firstMark (lines ++ [text]) =
      Indentation.settle (firstMark lines) (⟨text, lines.length⟩ : Line).indent := by
  rw [firstMark, outlineLines_concat_of_not_skipped h, List.flatMap_append, List.head?_append]
  cases hm : ((outlineLines lines).flatMap Line.indent).head? with
  | none => simp [firstMark, hm, Indentation.settle]
  | some m => simp [firstMark, hm, Indentation.settle]

/-- The line, further down in a file by the given number of lines. -/
def Line.shift (count : Nat) (line : Line) : Line := { line with index := line.index + count }

theorem Line.number_shift (count : Nat) (line : Line) :
    (line.shift count).number = line.number + count := by
  simp only [Line.number, Line.shift]
  omega

/-- The lines of a second file come behind those of the first. -/
theorem outlineLines_append (lines rest : List Text) :
    outlineLines (lines ++ rest) =
      outlineLines lines ++ (outlineLines rest).map (Line.shift lines.length) := by
  have hindex : (rest.zipIdx lines.length).map (fun (text, index) => (⟨text, index⟩ : Line)) =
      (rest.zipIdx.map fun (text, index) => (⟨text, index⟩ : Line)).map
        (Line.shift lines.length) := by
    rw [List.zipIdx_eq_map_add, List.map_map, List.map_map]
    refine List.map_congr_left fun entry _ => ?_
    simp only [Function.comp_apply, Line.shift, Line.mk.injEq, true_and]
    omega
  -- whether a line is skipped does not depend on its position
  have hskipped (found : List Line) :
      (found.map (Line.shift lines.length)).filter (!·.skipped) =
        (found.filter (!·.skipped)).map (Line.shift lines.length) :=
    List.filter_map
  rw [outlineLines, List.zipIdx_append, List.map_append, List.filter_append, Nat.zero_add, hindex,
    hskipped, outlineLines, outlineLines]

theorem firstMark_append (lines rest : List Text) :
    firstMark (lines ++ rest) = (firstMark lines).or (firstMark rest) := by
  have hindent : ((outlineLines rest).map (Line.shift lines.length)).flatMap Line.indent =
      (outlineLines rest).flatMap Line.indent := by
    rw [List.flatMap_map]
    rfl
  rw [firstMark, outlineLines_append, List.flatMap_append, List.head?_append, hindent]
  rfl

/-- A line with a place is a line of the file, at its own position. -/
theorem mem_outlineLines {lines : List Text} {line : Line} :
    line ∈ outlineLines lines ↔
      line.skipped = false ∧ ∃ i : Nat, line.index = i ∧ lines[i]? = some line.text := by
  simp only [outlineLines, List.mem_filter, List.mem_map, Bool.not_eq_eq_eq_not, Bool.not_true]
  constructor
  · rintro ⟨⟨⟨text, i⟩, hmem, rfl⟩, hs⟩
    exact ⟨hs, i, rfl, List.mem_zipIdx_iff_getElem?.mp hmem⟩
  · rintro ⟨hs, i, hi, ht⟩
    refine ⟨⟨(line.text, i), List.mem_zipIdx_iff_getElem?.mpr ht, ?_⟩, hs⟩
    cases line
    simp_all

theorem not_mem_content {lines : List Text} {line : Line} (hlines : ∀ text ∈ lines, '\n' ∉ text)
    (h : line ∈ outlineLines lines) : '\n' ∉ line.content := by
  obtain ⟨-, i, -, htext⟩ := mem_outlineLines.mp h
  have hmem := hlines line.text (List.mem_of_getElem? htext)
  exact fun hfeed => hmem ((List.dropWhile_sublist Line.isIndent).subset hfeed)

theorem index_lt_of_mem_outlineLines {lines : List Text} {line : Line}
    (h : line ∈ outlineLines lines) : line.index < lines.length := by
  obtain ⟨-, i, hi, ht⟩ := mem_outlineLines.mp h
  obtain ⟨hlt, -⟩ := List.getElem?_eq_some_iff.mp ht
  omega

theorem mem_outlineLines_append_of_lt {lines rest : List Text} {line : Line}
    (h : line.index < lines.length) :
    line ∈ outlineLines (lines ++ rest) ↔ line ∈ outlineLines lines := by
  rw [mem_outlineLines, mem_outlineLines]
  refine and_congr_right fun _ => exists_congr fun i => and_congr_right fun hi => ?_
  rw [List.getElem?_append_left (by omega)]

/-- The indentation mark of the file as of a line: the first indentation character of the lines
up to and including that line. -/
def markAt (lines : List Text) (line : Line) : Option Char :=
  firstMark (lines.take line.number.toNat)

theorem markAt_append_of_lt {lines : List Text} (rest : List Text) {line : Line}
    (h : line.index < lines.length) : markAt (lines ++ rest) line = markAt lines line := by
  rw [markAt, markAt, List.take_append_of_le_length (by rw [Line.number]; omega)]

theorem markAt_concat_self (lines : List Text) (text : Text) :
    markAt (lines ++ [text]) ⟨text, lines.length⟩ = firstMark (lines ++ [text]) := by
  have hlen : (lines ++ [text]).length ≤ ((lines.length : Int) + 1).toNat := by simp
  rw [markAt, Line.number, List.take_of_length_le hlen]

/-- A line with a place is determined by its number. -/
theorem eq_of_number_eq {lines : List Text} {line line' : Line} (h : line ∈ outlineLines lines)
    (h' : line' ∈ outlineLines lines) (hn : line.number = line'.number) : line = line' := by
  obtain ⟨-, i, hi, ht⟩ := mem_outlineLines.mp h
  obtain ⟨-, i', hi', ht'⟩ := mem_outlineLines.mp h'
  obtain rfl : i = i' := by
    simp only [Line.number] at hn
    omega
  cases line
  cases line'
  simp_all

/-- A file is indented with one character exactly when every indentation character is the first
one. -/
theorem uniform_iff {lines : List Text} :
    (∃ mark : Char, ∀ line ∈ outlineLines lines, ∀ c ∈ line.indent, c = mark) ↔
      ∀ line ∈ outlineLines lines, ∀ c ∈ line.indent, firstMark lines = some c := by
  constructor
  · rintro ⟨mark, hmark⟩ line hline c hc
    have hmem : c ∈ (outlineLines lines).flatMap Line.indent :=
      List.mem_flatMap.mpr ⟨line, hline, hc⟩
    obtain ⟨d, hd⟩ := Option.isSome_iff_exists.mp
      (List.isSome_head?.mpr (List.ne_nil_of_mem hmem))
    obtain ⟨line', hline', hd'⟩ := List.mem_flatMap.mp (List.mem_of_mem_head? hd)
    rw [firstMark, hd, hmark line' hline' d hd', hmark line hline c hc]
  · intro h
    cases hm : firstMark lines with
    | none => exact ⟨' ', fun line hline c hc => by simp [h line hline c hc] at hm⟩
    | some mark =>
      exact ⟨mark, fun line hline c hc => Option.some.inj ((h line hline c hc).symm.trans hm)⟩

/-! ### Siblings -/

/-- Whether the content of a line starts with a pipe. -/
def Line.HasPipe (line : Line) : Prop := line.content.head? = some continuationMark

/-- The number of the line that a node comes from. -/
def Node.number : Node → Int
  | .subtree line _ _ => line.number
  | .continuation _ number => number

/-- Whether a node is a line with its own children. -/
def Node.IsSubtree : Node → Prop
  | .subtree _ _ _ => True
  | .continuation _ _ => False

/-- Two siblings may stand next to each other. After a line, a line with a pipe in front would
be a continuation of the first. -/
def Node.Precedes : Node → Node → Prop
  | .subtree _ _ _, .subtree line _ _ => ¬ line.HasPipe
  | _, _ => True

/-- A child line is a line of the file, and its tokens are counted. -/
def IsChildLine (lines : List Text) (line : Line) (tokens : Int) : Prop :=
  line ∈ outlineLines lines ∧ ∃ n : Nat, Token.count line.content = .ok n ∧ tokens = n

/-- A continuation is a line of the file with a pipe in front, as wide as the parent. Its text is
that of the line with the mark of the file in place of the pipe, or with nothing there as long
as the file has no mark. -/
def IsContinuationOf (lines : List Text) (parent : Int) (text : Text) (number : Int) : Prop :=
  ∃ line ∈ outlineLines lines, line.number = number ∧ line.width = parent ∧ line.HasPipe ∧
    text = line.indent ++ (markAt lines line).toList ++ line.content.drop 1

/-- The nodes below a parent of the given width are in order. -/
structure Siblings (lines : List Text) (parent : Int) (nodes : List Node) : Prop where
  counted : ∀ (line : Line) (tokens : Int) (children : List Node),
    .subtree line tokens children ∈ nodes → IsChildLine lines line tokens
  /-- The child lines have one width, and the parent is narrower. -/
  aligned : ∃ width : Nat, parent < width ∧
    ∀ (line : Line) (tokens : Int) (children : List Node),
      .subtree line tokens children ∈ nodes → line.width = width
  continued : ∀ (text : Text) (number : Int),
    .continuation text number ∈ nodes → IsContinuationOf lines parent text number
  /-- No child line that could continue the one before it follows a child line. -/
  apart : nodes.IsChain Node.Precedes

/-- The nodes below a parent of the given width are in order, and so are all that are below
them. -/
inductive Nested (lines : List Text) : Int → List Node → Prop
  | intro {parent : Int} {nodes : List Node} (siblings : Siblings lines parent nodes)
      (below : ∀ (line : Line) (tokens : Int) (children : List Node),
        .subtree line tokens children ∈ nodes → Nested lines line.width children) :
      Nested lines parent nodes

/-- The nodes of a forest, every node before those below it. -/
def Node.flatten (nodes : List Node) : List Node := (Node.preorderAll 0 nodes).map Prod.snd

/-- The numbers of the lines that the nodes of a forest come from, in preorder. -/
def Node.numbers (nodes : List Node) : List Int := (Node.flatten nodes).map Node.number

/-- A forest is an outline of the lines of a file. -/
structure IsOutline (lines : List Text) (roots : List Node) : Prop where
  /-- The nodes are the lines that have a place, in the order of the file. -/
  listed : Node.numbers roots = (outlineLines lines).map Line.number
  /-- There are no continuations at the root of the file. -/
  rooted : ∀ node ∈ roots, node.IsSubtree
  nested : Nested lines Reader.rootWidth roots
  /-- The lines are indented with one character. -/
  uniform : ∃ mark : Char, ∀ line ∈ outlineLines lines, ∀ c ∈ line.indent, c = mark

/-! ### Nodes in preorder -/

namespace Node

/-- What holds of a line if it holds of the nodes below, and of every continuation, holds of all
nodes. -/
theorem induction {motive : Node → Prop}
    (subtree : ∀ (line : Line) (tokens : Int) (children : List Node),
      (∀ node ∈ children, motive node) → motive (.subtree line tokens children))
    (continuation : ∀ (text : Text) (number : Int), motive (.continuation text number)) :
    ∀ node : Node, motive node
  | .subtree line tokens children =>
    subtree line tokens children fun node _ => induction subtree continuation node
  | .continuation text number => continuation text number

mutual

/-- The nodes of a tree do not depend on the depth at which it is listed. -/
private theorem snd_preorder (d e : Nat) : ∀ node : Node,
    (node.preorder d).map Prod.snd = (node.preorder e).map Prod.snd
  | .subtree line tokens children => by
    simp only [preorder, List.map_cons]
    rw [snd_preorderAll (d + 1) (e + 1) children]
  | .continuation text number => rfl

private theorem snd_preorderAll (d e : Nat) : ∀ nodes : List Node,
    (preorderAll d nodes).map Prod.snd = (preorderAll e nodes).map Prod.snd
  | [] => rfl
  | node :: nodes => by
    simp only [preorderAll, List.map_append]
    rw [snd_preorder d e node, snd_preorderAll d e nodes]

end

@[simp]
theorem flatten_nil : flatten [] = [] := rfl

theorem flatten_append (nodes nodes' : List Node) :
    flatten (nodes ++ nodes') = flatten nodes ++ flatten nodes' := by
  induction nodes with
  | nil => rfl
  | cons node nodes ih =>
    simp only [flatten, List.cons_append, preorderAll, List.map_append, List.append_assoc] at ih ⊢
    rw [ih]

theorem flatten_cons (node : Node) (nodes : List Node) :
    flatten (node :: nodes) = flatten [node] ++ flatten nodes :=
  flatten_append [node] nodes

@[simp]
theorem flatten_subtree (line : Line) (tokens : Int) (children : List Node) :
    flatten [.subtree line tokens children] =
      .subtree line tokens children :: flatten children := by
  simp only [flatten, preorderAll, preorder, List.map_cons, List.append_nil]
  rw [snd_preorderAll (0 + 1) 0 children]

@[simp]
theorem flatten_continuation (text : Text) (number : Int) :
    flatten [.continuation text number] = [.continuation text number] := rfl

theorem mem_flatten_self {node : Node} {nodes : List Node} (h : node ∈ nodes) :
    node ∈ flatten nodes := by
  induction nodes with
  | nil => simp at h
  | cons first nodes ih =>
    rw [flatten_cons, List.mem_append]
    rcases List.mem_cons.mp h with rfl | h
    · exact .inl (by cases node <;> simp)
    · exact .inr (ih h)

/-- The nodes of a forest are those of its trees. -/
theorem flatten_eq_flatMap (nodes : List Node) :
    flatten nodes = nodes.flatMap fun node => flatten [node] := by
  induction nodes with
  | nil => rfl
  | cons node nodes ih => rw [flatten_cons, ih, List.flatMap_cons]

/-- A change of single nodes changes the listed nodes one by one. -/
theorem flatten_map {f : Node → Node}
    (hsubtree : ∀ (line : Line) (tokens : Int) (children : List Node), ∃ line' tokens',
      f (.subtree line tokens children) = .subtree line' tokens' (children.map f))
    (hcontinuation : ∀ (text : Text) (number : Int), ∃ text' number',
      f (.continuation text number) = .continuation text' number') (nodes : List Node) :
    flatten (nodes.map f) = (flatten nodes).map f := by
  have htree (node : Node) : flatten [f node] = (flatten [node]).map f := by
    induction node using Node.induction with
    | continuation text number =>
      obtain ⟨text', number', heq⟩ := hcontinuation text number
      rw [heq, flatten_continuation, flatten_continuation, List.map_singleton, heq]
    | subtree line tokens children ih =>
      obtain ⟨line', tokens', heq⟩ := hsubtree line tokens children
      rw [heq, flatten_subtree, flatten_subtree, List.map_cons, heq,
        flatten_eq_flatMap (children.map f), List.flatMap_map, List.flatMap_congr ih,
        flatten_eq_flatMap children, List.map_flatMap]
  rw [flatten_eq_flatMap, List.flatMap_map, flatten_eq_flatMap nodes, List.map_flatMap]
  exact List.flatMap_congr fun node _ => htree node

theorem mem_flatten_of_mem_children {line : Line} {tokens : Int} {children nodes : List Node}
    {node : Node} (h : .subtree line tokens children ∈ nodes) (hnode : node ∈ flatten children) :
    node ∈ flatten nodes := by
  induction nodes with
  | nil => simp at h
  | cons first nodes ih =>
    rw [flatten_cons, List.mem_append]
    rcases List.mem_cons.mp h with rfl | h
    · exact .inl (by simp [hnode])
    · exact .inr (ih h)

@[simp]
theorem numbers_nil : numbers [] = [] := rfl

theorem numbers_append (nodes nodes' : List Node) :
    numbers (nodes ++ nodes') = numbers nodes ++ numbers nodes' := by
  rw [numbers, flatten_append, List.map_append, numbers, numbers]

@[simp]
theorem numbers_subtree (line : Line) (tokens : Int) (children : List Node) :
    numbers [.subtree line tokens children] = line.number :: numbers children := by
  rw [numbers, flatten_subtree, List.map_cons, number, numbers]

@[simp]
theorem numbers_continuation (text : Text) (number : Int) :
    numbers [.continuation text number] = [number] := rfl

end Node

/-! ### Adding a sibling -/

theorem Siblings.nil (lines : List Text) (parent : Int) : Siblings lines parent [] where
  counted := by simp
  aligned := ⟨(parent + 1).toNat, by omega, by simp⟩
  continued := by simp
  apart := .nil

/-- A line may be the next child of a parent of the given width. -/
structure Line.Fits (line : Line) (parent : Int) (nodes : List Node) : Prop where
  wider : parent < line.width
  aligned : ∀ (l : Line) (t : Int) (c : List Node), .subtree l t c ∈ nodes → l.width = line.width
  apart : ∀ node ∈ nodes.getLast?, node.IsSubtree → ¬ line.HasPipe

theorem Node.precedes_subtree_iff {node : Node} {line : Line} {tokens : Int}
    {children : List Node} :
    node.Precedes (.subtree line tokens children) ↔ (node.IsSubtree → ¬ line.HasPipe) := by
  cases node <;> simp [Node.Precedes, Node.IsSubtree]

theorem siblings_concat_subtree {lines : List Text} {parent : Int} {nodes : List Node}
    {line : Line} {tokens : Int} {children : List Node} :
    Siblings lines parent (nodes ++ [.subtree line tokens children]) ↔
      Siblings lines parent nodes ∧ IsChildLine lines line tokens ∧ line.Fits parent nodes := by
  constructor
  · intro h
    obtain ⟨width, hparent, hwidth⟩ := h.aligned
    have hline : line.width = width := hwidth line tokens children (by simp)
    refine ⟨⟨fun l t c hl => h.counted l t c (by simp [hl]),
      ⟨width, hparent, fun l t c hl => hwidth l t c (by simp [hl])⟩,
      fun text number hn => h.continued text number (by simp [hn]),
      h.apart.left_of_append⟩, h.counted line tokens children (by simp), ?_, ?_, ?_⟩
    · rw [hline]
      exact hparent
    · intro l t c hl
      rw [hline]
      exact hwidth l t c (by simp [hl])
    · intro node hnode
      have hprec := (List.isChain_append.mp h.apart).2.2 node hnode
        (.subtree line tokens children) (by simp)
      exact Node.precedes_subtree_iff.mp hprec
  · rintro ⟨h, hline, hfits⟩
    refine ⟨?_, ⟨line.width, hfits.wider, ?_⟩, ?_, ?_⟩
    · intro l t c hl
      simp only [List.mem_append, List.mem_singleton, Node.subtree.injEq] at hl
      rcases hl with hl | ⟨rfl, rfl, rfl⟩
      · exact h.counted l t c hl
      · exact hline
    · intro l t c hl
      simp only [List.mem_append, List.mem_singleton, Node.subtree.injEq] at hl
      rcases hl with hl | ⟨rfl, rfl, rfl⟩
      · exact hfits.aligned l t c hl
      · rfl
    · intro text number hn
      exact h.continued text number (by simpa using hn)
    · refine List.isChain_append.mpr ⟨h.apart, .singleton _, fun node hnode next hnext => ?_⟩
      simp only [List.head?_cons, Option.mem_def, Option.some.injEq] at hnext
      subst hnext
      exact Node.precedes_subtree_iff.mpr (hfits.apart node hnode)

theorem siblings_concat_continuation {lines : List Text} {parent : Int} {nodes : List Node}
    {text : Text} {number : Int} :
    Siblings lines parent (nodes ++ [.continuation text number]) ↔
      Siblings lines parent nodes ∧ IsContinuationOf lines parent text number := by
  constructor
  · intro h
    obtain ⟨width, hparent, hwidth⟩ := h.aligned
    exact ⟨⟨fun l t c hl => h.counted l t c (by simp [hl]),
      ⟨width, hparent, fun l t c hl => hwidth l t c (by simp [hl])⟩,
      fun text number hn => h.continued text number (by simp [hn]),
      h.apart.left_of_append⟩, h.continued text number (by simp)⟩
  · rintro ⟨h, hcont⟩
    obtain ⟨width, hparent, hwidth⟩ := h.aligned
    refine ⟨fun l t c hl => h.counted l t c (by simpa using hl),
      ⟨width, hparent, fun l t c hl => hwidth l t c (by simpa using hl)⟩, ?_, ?_⟩
    · intro text' number' hn
      simp only [List.mem_append, List.mem_singleton, Node.continuation.injEq] at hn
      rcases hn with hn | ⟨rfl, rfl⟩
      · exact h.continued text' number' hn
      · exact hcont
    · refine List.isChain_append.mpr ⟨h.apart, .singleton _, fun node _ next hnext => ?_⟩
      simp only [List.head?_cons, Option.mem_def, Option.some.injEq] at hnext
      subst hnext
      cases node <;> trivial

/-! ### Growing by one line -/

/-- A forest below a parent of the given width grows by one line, behind all its nodes. -/
inductive Grows (mark : Option Char) (line : Line) : Int → List Node → List Node → Prop
  | child {parent : Int} {nodes : List Node} {tokens : Nat} (fits : line.Fits parent nodes)
      (count : Token.count line.content = .ok tokens) :
      Grows mark line parent nodes (nodes ++ [.subtree line tokens []])
  | continuation {parent : Int} {nodes : List Node} (continues : line.continues parent = true) :
      Grows mark line parent nodes (nodes ++ [line.continuation mark])
  | deeper {parent : Int} {nodes : List Node} {last : Line} {tokens : Int}
      {children children' : List Node} (grows : Grows mark line last.width children children') :
      Grows mark line parent (nodes ++ [.subtree last tokens children])
        (nodes ++ [.subtree last tokens children'])

theorem Line.continues_iff {line : Line} {parent : Int} :
    line.continues parent = true ↔ line.width = parent ∧ line.HasPipe := by
  simp [Line.continues, Line.HasPipe]

theorem Grows.numbers {mark : Option Char} {line : Line} {parent : Int}
    {nodes nodes' : List Node} (h : Grows mark line parent nodes nodes') :
    Node.numbers nodes' = Node.numbers nodes ++ [line.number] := by
  induction h with
  | child fits count => simp [Node.numbers_append]
  | continuation continues => simp [Node.numbers_append, Line.continuation]
  | deeper grows ih => simp [Node.numbers_append, ih]

/-- Below the root of the file, a continuation has no place: what has grown are lines. -/
theorem Grows.isSubtree {mark : Option Char} {line : Line} {nodes nodes' : List Node}
    (h : Grows mark line Reader.rootWidth nodes nodes') :
    (∀ node ∈ nodes', node.IsSubtree) ↔ ∀ node ∈ nodes, node.IsSubtree := by
  cases h with
  | child fits count => simp [or_imp, forall_and, Node.IsSubtree]
  | continuation continues =>
    have hroot : (line.width : Int) = -1 := (Line.continues_iff.mp continues).1
    omega
  | deeper grows => simp [or_imp, forall_and, Node.IsSubtree]

theorem Nested.nil (lines : List Text) (parent : Int) : Nested lines parent [] :=
  .intro (.nil lines parent) (by simp)

/-- Behind the last of the siblings goes a line with all that is below it. -/
theorem Nested.concat_subtree {lines : List Text} {parent : Int} {nodes children : List Node}
    {line : Line} {tokens : Int} (h : Nested lines parent nodes)
    (hline : IsChildLine lines line tokens) (hfits : line.Fits parent nodes)
    (hchildren : Nested lines line.width children) :
    Nested lines parent (nodes ++ [.subtree line tokens children]) := by
  obtain ⟨siblings, below⟩ := h
  refine .intro (siblings_concat_subtree.mpr ⟨siblings, hline, hfits⟩) fun l t c hmem => ?_
  simp only [List.mem_append, List.mem_singleton, Node.subtree.injEq] at hmem
  rcases hmem with hmem | ⟨rfl, rfl, rfl⟩
  · exact below l t c hmem
  · exact hchildren

theorem Nested.siblings {lines : List Text} {parent : Int} {nodes : List Node}
    (h : Nested lines parent nodes) : Siblings lines parent nodes := by
  obtain ⟨siblings, -⟩ := h
  exact siblings

theorem Nested.last {lines : List Text} {parent : Int} {nodes children : List Node}
    {line : Line} {tokens : Int}
    (h : Nested lines parent (nodes ++ [.subtree line tokens children])) :
    Nested lines line.width children := by
  obtain ⟨-, below⟩ := h
  exact below line tokens children (by simp)

/-- Whatever is below the nodes of a longer list is below those of the shorter. -/
theorem Nested.of_concat {lines : List Text} {parent : Int} {nodes : List Node} {node : Node}
    (siblings : Siblings lines parent nodes) (h : Nested lines parent (nodes ++ [node])) :
    Nested lines parent nodes := by
  obtain ⟨-, below⟩ := h
  exact .intro siblings fun line tokens children hmem =>
    below line tokens children (by simp [hmem])

/-- A forest in order that is not empty has grown by its last line from a forest in order. -/
theorem Nested.exists_grows {lines : List Text} {parent : Int} {nodes : List Node}
    (h : Nested lines parent nodes) (hne : nodes ≠ []) :
    ∃ line ∈ outlineLines lines, ∃ before,
      Grows (markAt lines line) line parent before nodes ∧ Nested lines parent before := by
  induction h with
  | @intro parent nodes siblings below ih =>
    obtain ⟨front, node, rfl⟩ := (List.eq_nil_or_concat' nodes).resolve_left hne
    cases node with
    | continuation text number =>
      obtain ⟨hfront, line, hline, rfl, hwidth, hpipe, rfl⟩ :=
        siblings_concat_continuation.mp siblings
      exact ⟨line, hline, front, .continuation (Line.continues_iff.mpr ⟨hwidth, hpipe⟩),
        .of_concat hfront (.intro siblings below)⟩
    | subtree last tokens children =>
      obtain ⟨hfront, hlast, hfits⟩ := siblings_concat_subtree.mp siblings
      -- the last node of the forest is this line, unless there is something below it
      rcases eq_or_ne children [] with rfl | hchildren
      · obtain ⟨hmem, n, hcount, rfl⟩ := hlast
        exact ⟨last, hmem, front, .child hfits hcount, .of_concat hfront (.intro siblings below)⟩
      · obtain ⟨line, hline, before, hgrows, hbefore⟩ :=
          ih last tokens children (by simp) hchildren
        exact ⟨line, hline, front ++ [.subtree last tokens before], .deeper hgrows,
          .concat_subtree (.of_concat hfront (.intro siblings below)) hlast hfits hbefore⟩

/-! ### More lines at the end of the file -/

theorem isChildLine_append_iff {lines : List Text} {line : Line} {tokens : Int}
    (rest : List Text) (h : line.number ≤ lines.length) :
    IsChildLine (lines ++ rest) line tokens ↔ IsChildLine lines line tokens := by
  rw [IsChildLine, IsChildLine, mem_outlineLines_append_of_lt (by rw [Line.number] at h; omega)]

theorem isContinuationOf_append_iff {lines : List Text} {parent : Int} {text : Text}
    {number : Int} (rest : List Text) (h : number ≤ lines.length) :
    IsContinuationOf (lines ++ rest) parent text number ↔
      IsContinuationOf lines parent text number := by
  have hlt : ∀ line : Line, line.number = number → line.index < lines.length := by
    rintro line rfl
    rw [Line.number] at h
    omega
  constructor
  · rintro ⟨line, hline, hn, hwidth, hpipe, rfl⟩
    rw [markAt_append_of_lt rest (hlt line hn)]
    exact ⟨line, (mem_outlineLines_append_of_lt (hlt line hn)).mp hline, hn, hwidth, hpipe, rfl⟩
  · rintro ⟨line, hline, hn, hwidth, hpipe, rfl⟩
    rw [← markAt_append_of_lt rest (hlt line hn)]
    exact ⟨line, (mem_outlineLines_append_of_lt (hlt line hn)).mpr hline, hn, hwidth, hpipe, rfl⟩

/-- Lines that come later do not matter to siblings that come from earlier lines. -/
theorem siblings_append_iff {lines : List Text} {parent : Int} {nodes : List Node}
    (rest : List Text) (h : ∀ node ∈ nodes, node.number ≤ lines.length) :
    Siblings (lines ++ rest) parent nodes ↔ Siblings lines parent nodes := by
  constructor
  · rintro ⟨counted, aligned, continued, apart⟩
    exact ⟨fun l t c hl => (isChildLine_append_iff rest (h _ hl)).mp (counted l t c hl), aligned,
      fun t n hn => (isContinuationOf_append_iff rest (h _ hn)).mp (continued t n hn), apart⟩
  · rintro ⟨counted, aligned, continued, apart⟩
    exact ⟨fun l t c hl => (isChildLine_append_iff rest (h _ hl)).mpr (counted l t c hl), aligned,
      fun t n hn => (isContinuationOf_append_iff rest (h _ hn)).mpr (continued t n hn), apart⟩

theorem Siblings.number_le {lines : List Text} {parent : Int} {nodes : List Node}
    (h : Siblings lines parent nodes) : ∀ node ∈ nodes, node.number ≤ lines.length := by
  intro node hnode
  cases node with
  | subtree line tokens children =>
    have := index_lt_of_mem_outlineLines (h.counted line tokens children hnode).1
    simp only [Node.number, Line.number]
    omega
  | continuation text number =>
    obtain ⟨line, hline, rfl, -⟩ := h.continued text number hnode
    have := index_lt_of_mem_outlineLines hline
    simp only [Node.number, Line.number]
    omega

theorem Nested.append {lines : List Text} {parent : Int} {nodes : List Node}
    (h : Nested lines parent nodes) (rest : List Text) : Nested (lines ++ rest) parent nodes := by
  induction h with
  | intro siblings _ ih =>
    exact .intro ((siblings_append_iff rest siblings.number_le).mpr siblings) ih

theorem Nested.of_append {lines rest : List Text} {parent : Int} {nodes : List Node}
    (h : Nested (lines ++ rest) parent nodes) :
    (∀ n ∈ Node.numbers nodes, n ≤ lines.length) → Nested lines parent nodes := by
  induction h with
  | intro siblings _ ih =>
    intro hle
    refine .intro ((siblings_append_iff rest fun node hnode => ?_).mp siblings)
      fun line tokens children hmem => ih line tokens children hmem fun n hn => ?_
    · exact hle _ (List.mem_map_of_mem (Node.mem_flatten_self hnode))
    · obtain ⟨node, hnode, rfl⟩ := List.mem_map.mp hn
      exact hle _ (List.mem_map_of_mem (Node.mem_flatten_of_mem_children hmem hnode))

/-! ### Outlines by growth -/

section Concat

variable {lines : List Text} {text : Text}

/-- A forest in order that grows by the next line of the file stays in order. -/
theorem Nested.grows {parent : Int} {nodes nodes' : List Node} (h : Nested lines parent nodes)
    (hline : (⟨text, lines.length⟩ : Line) ∈ outlineLines (lines ++ [text]))
    (hgrows : Grows (firstMark (lines ++ [text])) ⟨text, lines.length⟩ parent nodes nodes') :
    Nested (lines ++ [text]) parent nodes' := by
  induction hgrows with
  | child fits count =>
    exact (h.append [text]).concat_subtree ⟨hline, _, count, rfl⟩ fits (.nil _ _)
  | continuation continues =>
    obtain ⟨hwidth, hpipe⟩ := Line.continues_iff.mp continues
    obtain ⟨siblings, below⟩ := h.append [text]
    refine .intro (siblings_concat_continuation.mpr ⟨siblings, _, hline, rfl, hwidth, hpipe, ?_⟩)
      fun l t c hmem => below l t c (by simpa [Line.continuation] using hmem)
    rw [markAt_concat_self]
  | deeper grows ih =>
    obtain ⟨siblings, below⟩ := h.append [text]
    obtain ⟨hfront, hlast, hfits⟩ := siblings_concat_subtree.mp siblings
    exact .concat_subtree (.of_concat hfront (.intro siblings below)) hlast hfits (ih h.last)

theorem mem_outlineLines_concat_self (h : (⟨text, lines.length⟩ : Line).skipped = false) :
    (⟨text, lines.length⟩ : Line) ∈ outlineLines (lines ++ [text]) := by
  simp [outlineLines_concat_of_not_skipped h]

theorem numbers_le_of_listed {roots : List Node}
    (h : Node.numbers roots = (outlineLines lines).map Line.number) :
    ∀ n ∈ Node.numbers roots, n ≤ lines.length := by
  intro n hn
  rw [h] at hn
  obtain ⟨line, hline, rfl⟩ := List.mem_map.mp hn
  have := index_lt_of_mem_outlineLines hline
  rw [Line.number]
  omega

/-- A line without a place does not change the outline. -/
theorem isOutline_concat_of_skipped {roots : List Node}
    (h : (⟨text, lines.length⟩ : Line).skipped = true) :
    IsOutline (lines ++ [text]) roots ↔ IsOutline lines roots := by
  have hlines := outlineLines_concat_of_skipped h
  constructor
  · rintro ⟨listed, rooted, nested, uniform⟩
    rw [hlines] at listed uniform
    exact ⟨listed, rooted, nested.of_append (numbers_le_of_listed listed), uniform⟩
  · rintro ⟨listed, rooted, nested, uniform⟩
    exact ⟨hlines ▸ listed, rooted, nested.append [text], hlines ▸ uniform⟩

/-- The outlines of one line more are what the outlines grow to by that line, if it is indented
with the mark of the file. -/
theorem isOutline_concat_iff {roots' : List Node}
    (h : (⟨text, lines.length⟩ : Line).skipped = false) :
    IsOutline (lines ++ [text]) roots' ↔
      (∀ c ∈ (⟨text, lines.length⟩ : Line).indent, firstMark (lines ++ [text]) = some c) ∧
      ∃ roots, IsOutline lines roots ∧
        Grows (firstMark (lines ++ [text])) ⟨text, lines.length⟩ Reader.rootWidth roots roots' := by
  have hlines := outlineLines_concat_of_not_skipped h
  have hself := mem_outlineLines_concat_self h
  constructor
  · rintro ⟨listed, rooted, nested, uniform⟩
    refine ⟨uniform_iff.mp uniform _ hself, ?_⟩
    have hne : roots' ≠ [] := by
      rintro rfl
      simp [hlines] at listed
    obtain ⟨line, hline, roots, hgrows, hroots⟩ := nested.exists_grows hne
    -- the line it has grown by has the number of the last line of the file
    rw [hgrows.numbers, hlines, List.map_append, List.map_singleton] at listed
    obtain ⟨hbefore, hnumber⟩ := List.append_inj' listed rfl
    obtain rfl : line = ⟨text, lines.length⟩ := eq_of_number_eq hline hself (by simpa using hnumber)
    rw [markAt_concat_self] at hgrows
    obtain ⟨mark, hmark⟩ := uniform
    exact ⟨roots, ⟨hbefore, hgrows.isSubtree.mp rooted,
      hroots.of_append (numbers_le_of_listed hbefore),
      mark, fun line hline => hmark line (by simp [hlines, hline])⟩, hgrows⟩
  · rintro ⟨hindent, roots, ⟨listed, rooted, nested, uniform⟩, hgrows⟩
    refine ⟨?_, hgrows.isSubtree.mpr rooted, nested.grows hself hgrows, uniform_iff.mpr ?_⟩
    · rw [hgrows.numbers, listed, hlines, List.map_append, List.map_singleton]
    · intro line hline c hc
      rw [hlines, List.mem_append, List.mem_singleton] at hline
      rcases hline with hline | rfl
      · rw [firstMark_concat_of_not_skipped h, uniform_iff.mp uniform line hline c hc]
        rfl
      · exact hindent c hc

end Concat

end Offside
