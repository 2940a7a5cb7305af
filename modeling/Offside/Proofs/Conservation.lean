import Offside.Proofs.Balance
import Offside.Proofs.Provenance

/-!
# Compiling keeps the text

What a file says in visible characters is what its records say, in the same order: apart from
blanks and parentheses nothing is lost, doubled or moved (`transpile_conserves`). The parentheses
of the records are those of the file with one pair more for every node that needs it.

Both are read off one equation, `Node.filter_record`. A class of characters without blanks sees of a
record only what its line says, the records below it, and the parentheses around the two. The
nodes of an outline are then compared with the lines of the file, one by one
(`IsOutline.forall₂_madeOf`).
-/

namespace Offside

/-! ### What a class of characters sees of a record -/

/-- What a node says itself, without the nodes below it. A header says nothing. -/
def Node.own : Node → Text
  | .subtree line _ _ => if isHeader line.text then [] else line.content
  | .continuation text _ => text

/-- Whether a node is written in parentheses. -/
def Node.isWrapped : Node → Bool
  | .subtree _ tokens children => Node.needsParens tokens children
  | .continuation _ _ => false

section Filter

variable {p : Char → Bool} (hp : ∀ c, Text.isBlank c = true → p c = false)

include hp

theorem filter_of_isBlank {blanks : Text} (h : ∀ c ∈ blanks, Text.isBlank c = true) :
    blanks.filter p = [] := by
  rw [List.filter_eq_nil_iff]
  intro c hc
  simp [hp c (h c hc)]

theorem Line.filter_indent (line : Line) : line.indent.filter p = [] :=
  filter_of_isBlank hp fun c hc => Signal.isBlank_of_isIndent (line.isIndent_of_mem_indent c hc)

theorem filter_stripLeft (text : Text) : (Text.stripLeft text).filter p = text.filter p := by
  have hblank : (text.takeWhile Text.isBlank).filter p = [] :=
    filter_of_isBlank hp fun c hc => List.mem_takeWhile_imp hc
  have hsplit : text = text.takeWhile Text.isBlank ++ Text.stripLeft text :=
    List.takeWhile_append_dropWhile.symm
  conv_rhs => rw [hsplit]
  rw [List.filter_append, hblank, List.nil_append]

theorem filter_append_feed (s t : Text) :
    (s ++ '\n' :: t).filter p = s.filter p ++ t.filter p := by
  have hfeed : p '\n' = false := hp '\n' (by decide)
  rw [List.filter_append, List.filter_cons_of_neg (by simp [hfeed])]

theorem filter_join (texts : List Text) :
    (List.intercalate ['\n'] texts).filter p = texts.flatMap (List.filter p) := by
  induction texts with
  | nil => rfl
  | cons text texts ih =>
    cases texts with
    | nil => simp
    | cons text' texts =>
      rw [List.intercalate_cons_cons, List.append_assoc, List.singleton_append,
        filter_append_feed hp, ih]
      exact List.flatMap_cons.symm

theorem filter_inner (line : Line) (tokens : Int) (children : List Node) (texts : List Text) :
    (Record.inner line texts).filter p =
      (Node.subtree line tokens children).own.filter p ++ texts.flatMap (List.filter p) := by
  rw [Record.inner, Node.own]
  split
  · rw [filter_stripLeft hp, filter_join hp, List.filter_nil, List.nil_append]
  · split
    · next hnil => rw [List.isEmpty_iff.mp hnil, List.flatMap_nil, List.append_nil]
    · rw [filter_append_feed hp, filter_join hp]

theorem filter_closing (line : Line) (body : Text) :
    (Record.closing line.indent body).filter p = [')'].filter p := by
  rw [Record.closing]
  split
  · rw [← List.nil_append ('\n' :: _), filter_append_feed hp, List.filter_append,
      line.filter_indent hp]
    rfl
  · rfl

/-- A class without blanks sees of a record what its line says and the records below it, in
parentheses if the node needs them. -/
theorem Node.filter_record (line : Line) (tokens : Int) (children : List Node) :
    (Node.subtree line tokens children).record.filter p =
      (if Node.needsParens tokens children then ['('] else []).filter p ++
        ((Node.subtree line tokens children).own.filter p ++
          children.flatMap fun node => node.record.filter p) ++
        (if Node.needsParens tokens children then [')'] else []).filter p := by
  have hinner := filter_inner hp line tokens children (children.map Node.record)
  rw [List.flatMap_map] at hinner
  rw [Node.record, Node.records_eq_map, Record.wrap]
  split
  · rw [List.filter_append, filter_closing hp, List.filter_append, line.filter_indent hp,
      List.nil_append, ← List.singleton_append, List.filter_append, hinner]
  · rw [List.filter_append, line.filter_indent hp, hinner]
    simp

/-- A class without blanks and parentheses sees of a record what its nodes say, in order. -/
theorem Node.filter_record_eq_flatMap (hopening : p '(' = false) (hclosing : p ')' = false)
    (node : Node) :
    node.record.filter p = (Node.flatten [node]).flatMap fun node' => node'.own.filter p := by
  induction node using Node.induction with
  | continuation text number => simp [Node.record, Node.own]
  | subtree line tokens children ih =>
    have hbelow : (children.flatMap fun node => node.record.filter p) =
        (Node.flatten children).flatMap fun node' => node'.own.filter p := by
      rw [Node.flatten_eq_flatMap, List.flatMap_assoc]
      exact List.flatMap_congr ih
    rw [Node.filter_record hp, hbelow, Node.flatten_subtree, List.flatMap_cons]
    split <;> simp [hopening, hclosing]

end Filter

/-! ### Parentheses -/

theorem eq_or_eq_of_isParen {c : Char} (h : isParen c = true) : c = '(' ∨ c = ')' := by
  simpa [isParen] using h

theorem beq_of_isBlank {paren : Char} (h : isParen paren = true) :
    ∀ c, Text.isBlank c = true → (c == paren) = false := by
  intro c hc
  have hne : c ≠ paren := by
    rintro rfl
    rcases eq_or_eq_of_isParen h with rfl | rfl <;> exact absurd hc (by decide)
  simpa using hne

/-- What is counted in each record of a forest can be counted in all of them. -/
theorem Node.count_flatMap_record {paren : Char} {nodes : List Node}
    (h : ∀ node ∈ nodes, node.record.count paren =
      ((Node.flatten [node]).flatMap Node.own).count paren +
        (Node.flatten [node]).countP Node.isWrapped) :
    (nodes.flatMap Node.record).count paren =
      ((Node.flatten nodes).flatMap Node.own).count paren +
        (Node.flatten nodes).countP Node.isWrapped := by
  induction nodes with
  | nil => rfl
  | cons node nodes ih =>
    have hnode := h node (by simp)
    have hnodes := ih fun node' hnode' => h node' (by simp [hnode'])
    rw [List.flatMap_cons, List.count_append, hnode, hnodes, Node.flatten_cons node nodes,
      List.flatMap_append, List.count_append, List.countP_append]
    omega

section Count

variable {paren : Char} (hparen : isParen paren = true)

include hparen

/-- The parentheses of a record are those of its line and of the records below it, with one more
if the node needs them. -/
theorem Node.count_record_subtree (line : Line) (tokens : Int) (children : List Node) :
    (Node.subtree line tokens children).record.count paren =
      (Node.subtree line tokens children).own.count paren +
        (children.flatMap Node.record).count paren +
        if Node.needsParens tokens children then 1 else 0 := by
  have hrecord := congrArg List.length
    (Node.filter_record (beq_of_isBlank hparen) line tokens children)
  rw [← List.filter_flatMap] at hrecord
  simp only [List.length_append, ← List.countP_eq_length_filter] at hrecord
  simp only [List.count, hrecord]
  -- of the two parentheses around the record, one is of the kind that is counted
  cases Node.needsParens tokens children with
  | false => simp
  | true =>
    rcases eq_or_eq_of_isParen hparen with rfl | rfl
    · simp [Nat.add_comm]
    · simp

/-- The parentheses of a record are those of its nodes, with one more for each that needs them. -/
theorem Node.count_record (node : Node) :
    node.record.count paren =
      ((Node.flatten [node]).flatMap Node.own).count paren +
        (Node.flatten [node]).countP Node.isWrapped := by
  induction node using Node.induction with
  | continuation text number => simp [Node.record, Node.own, Node.isWrapped]
  | subtree line tokens children ih =>
    rw [Node.count_record_subtree hparen, Node.count_flatMap_record ih,
      Node.flatten_subtree, List.flatMap_cons, List.count_append, List.countP_cons, Node.isWrapped]
    omega

end Count

/-! ### What the lines say -/

/-- What a line says in the records of an outline: nothing if it is a header, and all of its
content but the pipe if it is a continuation. -/
def Line.said (roots : List Node) (line : Line) : Text :=
  if isHeader line.text then []
  else if line.number ∈ Node.continuationNumbers roots then line.content.drop 1
  else line.content

/-- A line with a pipe in front is no header. -/
theorem Line.isHeader_of_hasPipe {line : Line} (h : line.HasPipe) : isHeader line.text = false := by
  obtain ⟨content, hcontent⟩ := List.head?_eq_some_iff.mp h
  have hleft : Text.stripLeft line.text = continuationMark :: content := by
    rw [← line.indent_append_content, line.stripLeft_append_indent, hcontent, Text.stripLeft,
      List.dropWhile_cons_of_neg (by decide)]
  have hright : ∃ rest, Text.strip line.text = continuationMark :: rest := by
    rw [Text.strip, hleft, Text.stripRight, List.reverse_cons, List.dropWhile_append]
    split
    · exact ⟨[], by rw [List.dropWhile_cons_of_neg (by decide)]; rfl⟩
    · exact ⟨_, by rw [List.reverse_append]; rfl⟩
  obtain ⟨rest, hstrip⟩ := hright
  rw [isHeader, hstrip]
  rfl

/-- A node says what its line says. -/
theorem IsOutline.filter_own {lines : List Text} {roots : List Node} {line : Line} {node : Node}
    {p : Char → Bool} (h : IsOutline lines roots) (hp : ∀ c, Text.isBlank c = true → p c = false)
    (hnode : node ∈ Node.flatten roots) (hmade : node.MadeOf lines line) :
    node.own.filter p = (line.said roots).filter p := by
  cases hmade with
  | @subtree tokens children =>
    have hnumber : line.number ∉ Node.continuationNumbers roots := by
      rw [Node.mem_continuationNumbers]
      rintro ⟨text, hnode'⟩
      exact absurd (h.eq_of_number_eq hnode hnode' rfl) (by simp)
    rw [Node.own, Line.said, if_neg hnumber]
  | @continuation text pipe text_eq =>
    have hnumber : line.number ∈ Node.continuationNumbers roots :=
      Node.mem_continuationNumbers.mpr ⟨text, hnode⟩
    have hmark : ((markAt lines line).toList).filter p = [] := by
      refine filter_of_isBlank hp fun c hc => ?_
      obtain ⟨line', -, hindent⟩ := exists_mem_indent_of_firstMark (Option.mem_toList.mp hc)
      exact Signal.isBlank_of_isIndent (line'.isIndent_of_mem_indent c hindent)
    rw [Node.own, Line.said, if_neg (by simp [Line.isHeader_of_hasPipe pipe]), if_pos hnumber,
      text_eq, List.filter_append, List.filter_append, line.filter_indent hp, hmark]
    rfl

/-- A class without blanks sees the same in the nodes of an outline and in the lines. -/
theorem IsOutline.filter_flatMap_own {lines : List Text} {roots : List Node} {p : Char → Bool}
    (h : IsOutline lines roots) (hp : ∀ c, Text.isBlank c = true → p c = false) :
    ((Node.flatten roots).flatMap Node.own).filter p =
      ((outlineLines lines).flatMap (Line.said roots)).filter p := by
  have hmap : (Node.flatten roots).map (fun node => node.own.filter p) =
      (outlineLines lines).map fun line => (line.said roots).filter p := by
    rw [← List.forall₂_eq_eq_eq, List.forall₂_map_left_iff, List.forall₂_map_right_iff,
      List.forall₂_iff_zip]
    refine ⟨h.forall₂_madeOf.length_eq, fun {node line} hmem => ?_⟩
    exact h.filter_own hp (List.of_mem_zip hmem).1 (List.forall₂_zip h.forall₂_madeOf hmem)
  rw [List.filter_flatMap, List.filter_flatMap, List.flatMap_def, List.flatMap_def, hmap]

/-- Whether a character is visible and no parenthesis. -/
def isInk (c : Char) : Bool := !Text.isBlank c && !isParen c

/-- **Compiling keeps the text of a file.** Without blanks and parentheses, the records say what the
lines say, in the order of the lines. They have the parentheses of the lines, and a pair more for
every node that needs them. -/
theorem transpile_conserves {lines : List Text} {filename : Text} {records : List Text}
    (h : transpile lines filename = .ok records) :
    ∃ doc, Document.read lines filename = .ok doc ∧
      records.flatten.filter isInk =
        ((outlineLines lines).flatMap (Line.said doc.roots)).filter isInk ∧
      ∀ paren ∈ ['(', ')'], records.flatten.count paren =
        ((outlineLines lines).flatMap (Line.said doc.roots)).count paren +
          (Node.flatten doc.roots).countP Node.isWrapped := by
  obtain ⟨doc, hread, rfl⟩ := exists_of_map_eq_ok h
  have houtline := (isOutline_of_read hread).2
  have hrecords : doc.records.flatten = doc.roots.flatMap Node.record := by
    rw [Document.records, Node.records_eq_map, List.flatMap_def]
  refine ⟨doc, hread, ?_, fun paren hmem => ?_⟩
  · have hblank : ∀ c, Text.isBlank c = true → isInk c = false := by
      intro c hc
      simp [isInk, hc]
    have hroots : (doc.roots.flatMap fun node => node.record.filter isInk) =
        (Node.flatten doc.roots).flatMap fun node => node.own.filter isInk := by
      rw [Node.flatten_eq_flatMap, List.flatMap_assoc]
      exact List.flatMap_congr fun node _ => node.filter_record_eq_flatMap hblank rfl rfl
    rw [hrecords, List.filter_flatMap, hroots, ← List.filter_flatMap,
      houtline.filter_flatMap_own hblank]
  · have hparen : isParen paren = true := by
      simpa [isParen] using hmem
    have hown := congrArg List.length (houtline.filter_flatMap_own (beq_of_isBlank hparen))
    rw [← List.countP_eq_length_filter, ← List.countP_eq_length_filter] at hown
    rw [hrecords, Node.count_flatMap_record fun node _ => node.count_record hparen]
    exact congrArg (· + _) hown

/-- A header with a continuation and a comment below it, a line that ends in a comment, and a line
that is skipped. -/
theorem transpile_conserves_block :
    ∃ doc,
      Document.read ["f (g x) ; one".toList, "  ---".toList, "  | y)".toList,
        " ; no".toList, "    \"(\" z".toList, "k".toList] [] = .ok doc ∧
      ["(f (g x) ; one\n  (y)\n    (\"(\" z)))".toList, "k".toList].flatten.filter isInk =
        ((outlineLines ["f (g x) ; one".toList, "  ---".toList, "  | y)".toList,
          " ; no".toList, "    \"(\" z".toList, "k".toList]).flatMap
            (Line.said doc.roots)).filter isInk ∧
      ∀ paren ∈ ['(', ')'],
        ["(f (g x) ; one\n  (y)\n    (\"(\" z)))".toList, "k".toList].flatten.count paren =
          ((outlineLines ["f (g x) ; one".toList, "  ---".toList, "  | y)".toList,
            " ; no".toList, "    \"(\" z".toList, "k".toList]).flatMap
              (Line.said doc.roots)).count paren +
            (Node.flatten doc.roots).countP Node.isWrapped :=
  transpile_conserves (by decide +kernel)

end Offside
