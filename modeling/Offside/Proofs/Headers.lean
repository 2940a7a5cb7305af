import Offside.Proofs.Conservation
import Offside.Proofs.Grouping
import Offside.Proofs.Meaning

/-!
# The text of a header

A block header groups what is below it and is not written itself. So another header with the same
indentation can take its place, whatever its separator, its length and the blanks around it, and
the records stay the same. There is one exception (`transpile_set_header`). The blanks around a
header are those of Unicode, but its tokens are what spaces alone divide, so the blanks count as
tokens where a space stands between them and the separators. Where something is below a header, it
is in parentheses anyhow. Where nothing is, a header of one token is written as its indentation, and
a header of more as an empty pair of parentheses.

The two outlines differ in the one node (`Exchanges.isOutline`), and hence the records are the same
exactly if this node has parentheses in both or in none (`Exchanges.records_eq_iff`). That they
differ otherwise is seen by counting parentheses.
-/

namespace Offside

/-! ### The text of a header -/

theorem Text.exists_stripRight_append (s : Text) :
    ∃ blanks, s = stripRight s ++ blanks ∧ ∀ c ∈ blanks, isBlank c = true := by
  refine ⟨(s.reverse.takeWhile isBlank).reverse, ?_, fun c hc => ?_⟩
  · rw [stripRight, ← List.reverse_append, List.takeWhile_append_dropWhile, List.reverse_reverse]
  · exact List.mem_takeWhile_imp (List.mem_reverse.mp hc)

theorem isBlank_eq_false_of_mem_headerChars : ∀ c ∈ headerChars, Text.isBlank c = false := by
  intro c hc
  simp only [headerChars, List.mem_cons, List.not_mem_nil, or_false] at hc
  rcases hc with rfl | rfl | rfl | rfl <;> decide

/-- A text without quotes, comments and parentheses is counted as it stands. -/
theorem Token.count_of_plain {content : Text} (hquote : '"' ∉ content)
    (hmarker : Comment.marker ∉ content) (hparen : ∀ c ∈ content, isParen c = false) :
    count content = .ok (countPieces content) := by
  have hmask : Literal.mask content = content := Literal.mask_eq_self_of_not_mem hquote
  have hstrip : Comment.strip content = content := by
    have hstart : Comment.start? content = none := by
      rwa [Comment.start?_eq_none_iff, hmask]
    rw [Comment.strip, hstart]
  have hleaves : Group.Leaves content content := by
    clear hquote hmarker hmask hstrip
    induction content with
    | nil => exact .nil
    | cons c content ih =>
      have hc := hparen c List.mem_cons_self
      simp only [isParen, Bool.or_eq_false_iff, beq_eq_false_iff_ne] at hc
      exact .char hc.1 hc.2 (ih fun d hd => hparen d (List.mem_cons_of_mem c hd))
  rw [count, skeleton, hmask, hstrip, Group.fold_eq_ok_iff.mpr hleaves]
  rfl

namespace Line

variable {line : Line} (h : isHeader line.text = true)

include h

/-- A header begins with a separator, and has only separators and blanks. -/
theorem exists_of_isHeader :
    (∃ c ∈ headerChars, ∃ rest, Text.stripLeft line.text = c :: rest) ∧
      ∀ c ∈ line.text, Text.isBlank c = true ∨ c ∈ headerChars := by
  obtain ⟨blanks, hleft, hblanks⟩ := Text.exists_stripRight_append (Text.stripLeft line.text)
  rw [isHeader, Text.strip] at h
  cases hstrip : Text.stripRight (Text.stripLeft line.text) with
  | nil => simp [hstrip] at h
  | cons c s =>
    simp only [hstrip, Bool.and_eq_true, List.contains_iff_mem, List.all_eq_true,
      beq_iff_eq] at h
    obtain ⟨hc, hs⟩ := h
    rw [hstrip] at hleft
    refine ⟨⟨c, hc, s ++ blanks, hleft⟩, fun d hd => ?_⟩
    rw [← List.takeWhile_append_dropWhile (p := Text.isBlank) (l := line.text),
      List.mem_append] at hd
    rcases hd with hd | hd
    · exact .inl (List.mem_takeWhile_imp hd)
    · rw [← Text.stripLeft, hleft, List.mem_append, List.mem_cons] at hd
      rcases hd with (rfl | hd) | hd
      · exact .inr hc
      · exact .inr (hs d hd ▸ hc)
      · exact .inl (hblanks d hd)

theorem skipped_of_isHeader : line.skipped = false := by
  obtain ⟨⟨c, hc, rest, hleft⟩, -⟩ := exists_of_isHeader h
  have hblank : line.isBlank = false := by
    have hmem : c ∈ line.text := (List.dropWhile_sublist Text.isBlank).subset
      (show c ∈ Text.stripLeft line.text by simp [hleft])
    rw [isBlank, List.all_eq_false]
    exact ⟨c, hmem, by simp [isBlank_eq_false_of_mem_headerChars c hc]⟩
  have hcomment : line.isComment = false := by
    have hne : c ≠ Comment.marker := by
      rintro rfl
      exact absurd hc (by decide)
    rw [isComment, hleft, List.head?_cons, beq_eq_false_iff_ne]
    simpa using hne
  rw [skipped, hblank, hcomment]
  rfl

theorem not_hasPipe_of_isHeader : ¬ line.HasPipe := by
  intro hpipe
  rw [isHeader_of_hasPipe hpipe] at h
  exact absurd h (by decide)

/-- The tokens of a header are the pieces that spaces divide it into. -/
theorem count_of_isHeader : Token.count line.content = .ok (Token.countPieces line.content) := by
  obtain ⟨-, hall⟩ := exists_of_isHeader h
  have hother {c : Char} (hblank : Text.isBlank c = false) (hc : c ∉ headerChars) :
      c ∉ line.content := by
    intro hmem
    rcases hall c ((List.dropWhile_sublist isIndent).subset hmem) with hc' | hc'
    · rw [hc'] at hblank
      exact absurd hblank (by decide)
    · exact hc hc'
  refine Token.count_of_plain (hother (by decide) (by decide)) (hother (by decide) (by decide))
    fun c hc => ?_
  by_contra hparen
  rcases eq_or_eq_of_isParen (by simpa using hparen) with rfl | rfl
  · exact hother (by decide) (by decide) hc
  · exact hother (by decide) (by decide) hc

theorem countPieces_pos_of_isHeader : 0 < Token.countPieces line.content :=
  Line.count_pos (skipped_of_isHeader h) (count_of_isHeader h)

end Line

/-! ### Another line in the place of one -/

/-- The line, or the new line if that is to take its place. -/
def Line.standIn (new line : Line) : Line := if line.index = new.index then new else line

mutual

/-- The tree with a new line, which has `count` tokens, in the place of an old one. -/
def Node.reword (new : Line) (count : Int) : Node → Node
  | .subtree line tokens children =>
    .subtree (new.standIn line) (if line.index = new.index then count else tokens)
      (Node.rewordAll new count children)
  | .continuation text number => .continuation text number

/-- The trees of a forest with a new line in the place of an old one. -/
def Node.rewordAll (new : Line) (count : Int) : List Node → List Node
  | [] => []
  | node :: nodes => node.reword new count :: Node.rewordAll new count nodes

end

theorem Line.standIn_of_eq {new line : Line} (h : line.index = new.index) :
    new.standIn line = new := if_pos h

theorem Line.standIn_of_ne {new line : Line} (h : line.index ≠ new.index) :
    new.standIn line = line := if_neg h

theorem Line.number_standIn (new line : Line) : (new.standIn line).number = line.number := by
  by_cases h : line.index = new.index
  · rw [standIn_of_eq h, number, number, h]
  · rw [standIn_of_ne h]

namespace Node

variable (new : Line) (count : Int)

theorem rewordAll_eq_map (nodes : List Node) :
    rewordAll new count nodes = nodes.map (reword new count) := by
  induction nodes with
  | nil => rfl
  | cons node nodes ih => rw [rewordAll, ih, List.map_cons]

theorem reword_subtree (line : Line) (tokens : Int) (children : List Node) :
    (Node.subtree line tokens children).reword new count =
      .subtree (new.standIn line) (if line.index = new.index then count else tokens)
        (children.map (reword new count)) := by
  rw [reword, rewordAll_eq_map]

theorem number_reword (node : Node) : (node.reword new count).number = node.number := by
  cases node with
  | subtree line tokens children => exact new.number_standIn line
  | continuation text number => rfl

theorem isSubtree_reword {node : Node} : (node.reword new count).IsSubtree ↔ node.IsSubtree := by
  cases node <;> exact Iff.rfl

theorem flatten_map_reword (nodes : List Node) :
    flatten (nodes.map (reword new count)) = (flatten nodes).map (reword new count) :=
  flatten_map (fun line tokens children => ⟨_, _, reword_subtree new count line tokens children⟩)
    (fun _ _ => ⟨_, _, rfl⟩) nodes

theorem numbers_map_reword (nodes : List Node) :
    numbers (nodes.map (reword new count)) = numbers nodes := by
  rw [numbers, flatten_map_reword, List.map_map, numbers]
  exact List.map_congr_left fun node _ => number_reword new count node

variable {new count}

theorem Precedes.reword {node next : Node} (h : node.Precedes next) (hnew : ¬ new.HasPipe) :
    (node.reword new count).Precedes (next.reword new count) := by
  cases node with
  | continuation text number => cases next <;> trivial
  | subtree line tokens children =>
    cases next with
    | continuation text number => trivial
    | subtree next tokens' children' =>
      rw [reword_subtree, reword_subtree]
      by_cases heq : next.index = new.index
      · rwa [Line.standIn_of_eq heq]
      · rwa [Line.standIn_of_ne heq]

theorem exists_of_subtree_mem_map_reword {nodes children' : List Node} {line' : Line}
    {tokens' : Int} (h : .subtree line' tokens' children' ∈ nodes.map (reword new count)) :
    ∃ line tokens children, .subtree line tokens children ∈ nodes ∧ line' = new.standIn line ∧
      tokens' = (if line.index = new.index then count else tokens) ∧
      children' = children.map (reword new count) := by
  obtain ⟨node, hnode, heq⟩ := List.mem_map.mp h
  cases node with
  | continuation text number => simp [reword] at heq
  | subtree line tokens children =>
    rw [reword_subtree, Node.subtree.injEq] at heq
    obtain ⟨rfl, rfl, rfl⟩ := heq
    exact ⟨line, tokens, children, hnode, rfl, rfl, rfl⟩

theorem continuation_mem_of_mem_map_reword {nodes : List Node} {text : Text} {number : Int}
    (h : .continuation text number ∈ nodes.map (reword new count)) :
    .continuation text number ∈ nodes := by
  obtain ⟨node, hnode, heq⟩ := List.mem_map.mp h
  cases node with
  | subtree line tokens children => simp [reword] at heq
  | continuation text' number' => exact heq ▸ hnode

end Node

/-! ### Outlines with another header -/

/-- Two headers that can stand behind the same lines, with the same indentation. -/
structure Exchanges (front : List Text) (old new : Line) : Prop where
  old_index : old.index = front.length
  new_index : new.index = front.length
  indent_eq : new.indent = old.indent
  old_header : isHeader old.text = true
  new_header : isHeader new.text = true

/-- The lines around one that has a place. -/
theorem outlineLines_middle {front : List Text} {line : Line} (hindex : line.index = front.length)
    (hs : line.skipped = false) (rest : List Text) :
    outlineLines (front ++ line.text :: rest) =
      outlineLines front ++ line :: (outlineLines rest).map (Line.shift (front.length + 1)) := by
  have hline : (⟨line.text, front.length⟩ : Line) = line := by rw [← hindex]
  have hconcat : outlineLines (front ++ [line.text]) = outlineLines front ++ [line] := by
    rw [outlineLines_concat_of_not_skipped (by rwa [hline]), hline]
  rw [List.append_cons, outlineLines_append, hconcat, List.append_assoc, List.length_append]
  rfl

/-- A line with a place stands behind as many lines as its index says. -/
theorem exists_append_of_mem_outlineLines {lines : List Text} {line : Line}
    (h : line ∈ outlineLines lines) :
    ∃ front rest, lines = front ++ line.text :: rest ∧ line.index = front.length := by
  obtain ⟨-, i, hindex, hi⟩ := mem_outlineLines.mp h
  obtain ⟨hlt, htext⟩ := List.getElem?_eq_some_iff.mp hi
  refine ⟨lines.take i, lines.drop (i + 1), ?_, ?_⟩
  · rw [← htext, ← List.drop_eq_getElem_cons hlt, List.take_append_drop]
  · rw [hindex, List.length_take, Nat.min_eq_left hlt.le]

namespace Exchanges

variable {front rest : List Text} {old new : Line} (h : Exchanges front old new)

include h

theorem outlineLines_eq :
    outlineLines (front ++ new.text :: rest) =
      (outlineLines (front ++ old.text :: rest)).map new.standIn := by
  have hother {lines : List Line} (hne : ∀ line ∈ lines, line.index ≠ new.index) :
      lines.map new.standIn = lines := by
    have hsame : ∀ line ∈ lines, new.standIn line = line := fun line hline =>
      Line.standIn_of_ne (hne line hline)
    rw [List.map_congr_left hsame, List.map_id']
  have hbefore : ∀ line ∈ outlineLines front, line.index ≠ new.index := by
    intro line hline
    have hlt := index_lt_of_mem_outlineLines hline
    rw [h.new_index]
    omega
  have hbehind : ∀ line ∈ (outlineLines rest).map (Line.shift (front.length + 1)),
      line.index ≠ new.index := by
    intro line hline
    obtain ⟨before, hmem, rfl⟩ := List.mem_map.mp hline
    obtain ⟨-, i, hi, -⟩ := mem_outlineLines.mp hmem
    rw [Line.shift, h.new_index]
    dsimp only
    omega
  rw [outlineLines_middle h.new_index (Line.skipped_of_isHeader h.new_header),
    outlineLines_middle h.old_index (Line.skipped_of_isHeader h.old_header), List.map_append,
    List.map_cons, hother hbefore, hother hbehind,
    Line.standIn_of_eq (h.old_index.trans h.new_index.symm)]

theorem firstMark_eq :
    firstMark (front ++ new.text :: rest) = firstMark (front ++ old.text :: rest) := by
  rw [firstMark, firstMark,
    outlineLines_middle h.new_index (Line.skipped_of_isHeader h.new_header),
    outlineLines_middle h.old_index (Line.skipped_of_isHeader h.old_header), List.flatMap_append,
    List.flatMap_append, List.flatMap_cons, List.flatMap_cons, h.indent_eq]

theorem markAt_eq (line : Line) :
    markAt (front ++ new.text :: rest) line = markAt (front ++ old.text :: rest) line := by
  rw [markAt, markAt]
  rcases Nat.lt_or_ge front.length line.number.toNat with hlt | hle
  · obtain ⟨k, hk⟩ := Nat.exists_eq_add_of_lt hlt
    rw [hk, Nat.add_assoc, List.take_length_add_append, List.take_length_add_append,
      List.take_succ_cons, List.take_succ_cons]
    exact h.firstMark_eq
  · rw [List.take_append_of_le_length hle, List.take_append_of_le_length hle]

theorem old_mem : old ∈ outlineLines (front ++ old.text :: rest) := by
  rw [outlineLines_middle h.old_index (Line.skipped_of_isHeader h.old_header)]
  exact List.mem_append_right _ List.mem_cons_self

/-- The line to be replaced is known by its place. -/
theorem eq_old {line : Line} (hline : line ∈ outlineLines (front ++ old.text :: rest))
    (hindex : line.index = new.index) : line = old := by
  refine eq_of_number_eq hline h.old_mem ?_
  rw [Line.number, Line.number, hindex, h.new_index, h.old_index]

theorem standIn_mem {line : Line} (hline : line ∈ outlineLines (front ++ old.text :: rest)) :
    new.standIn line ∈ outlineLines (front ++ new.text :: rest) := by
  rw [h.outlineLines_eq]
  exact List.mem_map_of_mem hline

theorem indent_standIn {line : Line} (hline : line ∈ outlineLines (front ++ old.text :: rest)) :
    (new.standIn line).indent = line.indent := by
  by_cases hindex : line.index = new.index
  · rw [Line.standIn_of_eq hindex, h.eq_old hline hindex, h.indent_eq]
  · rw [Line.standIn_of_ne hindex]

theorem width_standIn {line : Line} (hline : line ∈ outlineLines (front ++ old.text :: rest)) :
    (new.standIn line).width = line.width := by
  rw [Line.width, h.indent_standIn hline, Line.width]

/-- Siblings in order stay in order with another header. -/
theorem siblings {parent : Int} {nodes : List Node}
    (hnodes : Siblings (front ++ old.text :: rest) parent nodes) :
    Siblings (front ++ new.text :: rest) parent
      (nodes.map (Node.reword new (Token.countPieces new.content))) := by
  obtain ⟨counted, ⟨width, hwider, haligned⟩, continued, apart⟩ := hnodes
  refine ⟨fun line' tokens' children' hmem' => ?_,
    ⟨width, hwider, fun line' tokens' children' hmem' => ?_⟩, fun text number hmem' => ?_, ?_⟩
  · obtain ⟨line, tokens, children, hmem, rfl, rfl, -⟩ :=
      Node.exists_of_subtree_mem_map_reword hmem'
    obtain ⟨hline, n, hcount, htokens⟩ := counted line tokens children hmem
    refine ⟨h.standIn_mem hline, ?_⟩
    by_cases hindex : line.index = new.index
    · rw [Line.standIn_of_eq hindex, if_pos hindex]
      exact ⟨_, Line.count_of_isHeader h.new_header, rfl⟩
    · rw [Line.standIn_of_ne hindex, if_neg hindex]
      exact ⟨n, hcount, htokens⟩
  · obtain ⟨line, tokens, children, hmem, rfl, -, -⟩ :=
      Node.exists_of_subtree_mem_map_reword hmem'
    rw [h.width_standIn (counted line tokens children hmem).1]
    exact haligned line tokens children hmem
  · obtain ⟨line, hline, hnumber, hwidth, hpipe, htext⟩ :=
      continued text number (Node.continuation_mem_of_mem_map_reword hmem')
    -- a line with a pipe in front is not the header
    have hindex : line.index ≠ new.index := by
      intro hindex
      rw [h.eq_old hline hindex] at hpipe
      exact Line.not_hasPipe_of_isHeader h.old_header hpipe
    have hline' := h.standIn_mem hline
    rw [Line.standIn_of_ne hindex] at hline'
    exact ⟨line, hline', hnumber, hwidth, hpipe, by rw [h.markAt_eq, htext]⟩
  · rw [List.isChain_map]
    exact apart.imp fun _ _ hprec =>
      hprec.reword (Line.not_hasPipe_of_isHeader h.new_header)

theorem nested {parent : Int} {nodes : List Node}
    (hnodes : Nested (front ++ old.text :: rest) parent nodes) :
    Nested (front ++ new.text :: rest) parent
      (nodes.map (Node.reword new (Token.countPieces new.content))) := by
  induction hnodes with
  | @intro parent nodes siblings below ih =>
    refine .intro (h.siblings siblings) fun line' tokens' children' hmem' => ?_
    obtain ⟨line, tokens, children, hmem, rfl, -, rfl⟩ :=
      Node.exists_of_subtree_mem_map_reword hmem'
    rw [h.width_standIn (siblings.counted line tokens children hmem).1]
    exact ih line tokens children hmem

/-- The outline with another header. -/
theorem isOutline {roots : List Node} (hroots : IsOutline (front ++ old.text :: rest) roots) :
    IsOutline (front ++ new.text :: rest)
      (roots.map (Node.reword new (Token.countPieces new.content))) := by
  obtain ⟨listed, rooted, nested, mark, hmark⟩ := hroots
  refine ⟨?_, fun node hnode => ?_, h.nested nested, mark, fun line hline c hc => ?_⟩
  · rw [Node.numbers_map_reword, listed, h.outlineLines_eq, List.map_map]
    exact List.map_congr_left fun line _ => (new.number_standIn line).symm
  · obtain ⟨before, hmem, rfl⟩ := List.mem_map.mp hnode
    exact (Node.isSubtree_reword _ _).mpr (rooted before hmem)
  · rw [h.outlineLines_eq] at hline
    obtain ⟨before, hmem, rfl⟩ := List.mem_map.mp hline
    rw [h.indent_standIn hmem] at hc
    exact hmark before hmem c hc

end Exchanges

/-! ### Records with another header -/

/-- Where two tests differ on at most one entry of a list and count the same, they do not differ. -/
theorem eq_of_countP_eq {α : Type} {p q : α → Bool} {l : List α} {a : α} (hnodup : l.Nodup)
    (ha : a ∈ l) (hother : ∀ b ∈ l, b ≠ a → p b = q b) (h : l.countP p = l.countP q) :
    p a = q a := by
  obtain ⟨before, behind, rfl⟩ := List.append_of_mem ha
  have hself : a ∉ before ++ behind := (List.nodup_middle.mp hnodup).notMem
  have hsame : (before ++ behind).countP p = (before ++ behind).countP q := by
    refine List.countP_congr fun b hb => ?_
    have hmem : b ∈ before ++ a :: behind := by
      rw [List.perm_middle.mem_iff]
      exact List.mem_cons_of_mem a hb
    rw [hother b hmem fun heq => hself (heq ▸ hb)]
  rw [List.perm_middle.countP_eq, List.perm_middle.countP_eq, List.countP_cons, List.countP_cons,
    hsame] at h
  cases hp : p a <;> cases hq : q a <;> simp [hp, hq] at h ⊢

/-- What a header puts behind its indentation does not show the header. -/
theorem Record.inner_of_isHeader {line : Line} (h : isHeader line.text = true)
    (texts : List Text) :
    Record.inner line texts = Text.stripLeft (List.intercalate ['\n'] texts) :=
  if_pos h

/-- A record does not change with a header that is put in parentheses as before. -/
theorem Node.record_reword {new : Line} {count : Int} (hnew : isHeader new.text = true)
    (node : Node) (hold : ∀ (line : Line) (tokens : Int) (children : List Node),
      .subtree line tokens children ∈ Node.flatten [node] → line.index = new.index →
        isHeader line.text = true ∧ line.indent = new.indent ∧
          Node.needsParens count children = Node.needsParens tokens children) :
    (node.reword new count).record = node.record := by
  induction node using Node.induction with
  | continuation text number => rfl
  | subtree line tokens children ih =>
    have hbelow : (children.map (Node.reword new count)).map Node.record =
        children.map Node.record := by
      rw [List.map_map]
      refine List.map_congr_left fun node hnode => ih node hnode fun l t c hmem => hold l t c ?_
      rw [Node.flatten_subtree, Node.flatten_eq_flatMap children]
      exact List.mem_cons_of_mem _ (List.mem_flatMap.mpr ⟨node, hnode, hmem⟩)
    rw [Node.reword_subtree, Node.record, Node.records_eq_map, hbelow, Node.needsParens_map,
      Node.record, Node.records_eq_map]
    by_cases hindex : line.index = new.index
    · obtain ⟨hheader, hindent, hparens⟩ := hold line tokens children (by simp) hindex
      rw [Line.standIn_of_eq hindex, if_pos hindex, hparens, hindent,
        Record.inner_of_isHeader hnew, Record.inner_of_isHeader hheader]
    · rw [Line.standIn_of_ne hindex, if_neg hindex]

namespace Exchanges

variable {front rest : List Text} {old new : Line} {roots : List Node} {tokens : Int}
  {children : List Node} (h : Exchanges front old new)
  (hroots : IsOutline (front ++ old.text :: rest) roots)
  (hnode : .subtree old tokens children ∈ Node.flatten roots)

include h hroots hnode

/-- The node to be replaced is known by its place. -/
theorem eq_node {line : Line} {t : Int} {c : List Node}
    (hmem : .subtree line t c ∈ Node.flatten roots) (hindex : line.index = new.index) :
    line = old ∧ t = tokens ∧ c = children := by
  have hnumber : line.number = old.number := by
    rw [Line.number, Line.number, hindex, h.new_index, h.old_index]
  simpa using hroots.eq_of_number_eq hmem hnode hnumber

theorem record_eq {count : Int}
    (hparens : Node.needsParens count children = Node.needsParens tokens children) :
    (roots.map (Node.reword new count)).map Node.record = roots.map Node.record := by
  rw [List.map_map]
  refine List.map_congr_left fun root hroot => ?_
  refine root.record_reword h.new_header fun line t c hmem hindex => ?_
  have hmem' : .subtree line t c ∈ Node.flatten roots := by
    rw [Node.flatten_eq_flatMap]
    exact List.mem_flatMap.mpr ⟨root, hroot, hmem⟩
  obtain ⟨rfl, rfl, rfl⟩ := h.eq_node hroots hnode hmem' hindex
  exact ⟨h.old_header, h.indent_eq.symm, hparens⟩

theorem own_reword (count : Int) {node : Node} (hmem : node ∈ Node.flatten roots) :
    (node.reword new count).own = node.own := by
  cases node with
  | continuation text number => rfl
  | subtree line t c =>
    rw [Node.reword_subtree, Node.own, Node.own]
    by_cases hindex : line.index = new.index
    · obtain ⟨rfl, -, -⟩ := h.eq_node hroots hnode hmem hindex
      rw [Line.standIn_of_eq hindex, if_pos h.new_header, if_pos h.old_header]
    · rw [Line.standIn_of_ne hindex]

theorem isWrapped_reword (count : Int) {node : Node} (hmem : node ∈ Node.flatten roots)
    (hne : node ≠ .subtree old tokens children) :
    (node.reword new count).isWrapped = node.isWrapped := by
  cases node with
  | continuation text number => rfl
  | subtree line t c =>
    have hindex : line.index ≠ new.index := by
      intro hindex
      obtain ⟨rfl, rfl, rfl⟩ := h.eq_node hroots hnode hmem hindex
      exact hne rfl
    rw [Node.reword_subtree, Node.isWrapped, Node.needsParens_map, if_neg hindex, Node.isWrapped]

/-- Records that do not change have the same parentheses. -/
theorem needsParens_eq {count : Int}
    (hrecords : (roots.map (Node.reword new count)).map Node.record = roots.map Node.record) :
    Node.needsParens count children = Node.needsParens tokens children := by
  have hopenings (nodes : List Node) : (nodes.map Node.record).flatten.count '(' =
      ((Node.flatten nodes).flatMap Node.own).count '(' +
        (Node.flatten nodes).countP Node.isWrapped := by
    rw [← List.flatMap_def]
    exact Node.count_flatMap_record fun node _ => node.count_record (by decide)
  have hown : ((Node.flatten roots).map (Node.reword new count)).flatMap Node.own =
      (Node.flatten roots).flatMap Node.own := by
    rw [List.flatMap_map]
    exact List.flatMap_congr fun node hmem => h.own_reword hroots hnode count hmem
  have hwrapped : ((Node.flatten roots).map (Node.reword new count)).countP Node.isWrapped =
      (Node.flatten roots).countP Node.isWrapped := by
    have hcount := hopenings (roots.map (Node.reword new count))
    rw [hrecords, hopenings roots, Node.flatten_map_reword, hown] at hcount
    omega
  have hnodup : (Node.flatten roots).Nodup := by
    have hnumbers := nodup_map_number (front ++ old.text :: rest)
    rw [← hroots.listed, Node.numbers] at hnumbers
    exact hnumbers.of_map
  -- all other nodes are wrapped as they were, so this one is too
  rw [List.countP_map] at hwrapped
  have hself := eq_of_countP_eq hnodup hnode
    (fun node hmem hne => h.isWrapped_reword hroots hnode count hmem hne) hwrapped
  rw [Node.reword_subtree, Node.isWrapped, Node.needsParens_map,
    if_pos (h.old_index.trans h.new_index.symm), Node.isWrapped] at hself
  exact hself

/-- The records change with a header exactly if its parentheses do. -/
theorem records_eq_iff (count : Int) :
    (roots.map (Node.reword new count)).map Node.record = roots.map Node.record ↔
      Node.needsParens count children = Node.needsParens tokens children :=
  ⟨h.needsParens_eq hroots hnode, h.record_eq hroots hnode⟩

end Exchanges

/-! ### What a header is written as -/

theorem Record.closing_eq {body : Text} (hquote : '"' ∉ body) (hmarker : Comment.marker ∉ body)
    (hfeed : '\n' ∉ body) (indent : Text) : Record.closing indent body = [')'] := by
  have hstart : Comment.start? (Text.afterLast '\n' body) = none := by
    rwa [Text.afterLast_of_not_mem hfeed, Comment.start?_eq_none_iff,
      Literal.mask_eq_self_of_not_mem hquote]
  rw [Record.closing, hstart]

section Written

variable {line : Line} (h : isHeader line.text = true)

include h

/-- A header with nothing below it is written as its indentation, with an empty pair of parentheses
if it has more than one token. -/
theorem Node.record_header_nil (tokens : Int) :
    (Node.subtree line tokens []).record =
      line.indent ++ if 1 < tokens then "()".toList else [] := by
  have hinner : Record.inner line [] = [] := Record.inner_of_isHeader h []
  have hclosing : Record.closing line.indent (line.indent ++ ['(']) = [')'] := by
    obtain ⟨hquote, hmarker, hfeed⟩ := Signal.not_mem_indent line.isIndent_of_mem_indent
    refine Record.closing_eq ?_ ?_ ?_ line.indent
    · simpa using hquote
    · simpa [Comment.marker] using hmarker
    · simpa using hfeed
  rw [Node.record, Node.records, hinner, Record.wrap, Node.needsParens]
  by_cases htokens : 1 < tokens
  · simp [htokens, hclosing]
  · simp [htokens]

/-- A header with something below it is written as what is below it, in parentheses. -/
theorem Node.record_header_of_ne_nil {tokens : Int} {children : List Node} (htokens : 0 < tokens)
    (hchildren : children ≠ []) :
    (Node.subtree line tokens children).record =
      let body := line.indent ++
        '(' :: Text.stripLeft (List.intercalate ['\n'] (children.map Node.record))
      body ++ Record.closing line.indent body := by
  have hparens : Node.needsParens tokens children = true := by
    have hlength := List.length_pos_iff.mpr hchildren
    rw [Node.needsParens, decide_eq_true_iff]
    omega
  rw [Node.record, hparens, Node.records_eq_map, Record.inner_of_isHeader h]
  rfl

end Written

theorem needsParens_eq_iff {m n : Nat} (hm : 0 < m) (hn : 0 < n) (children : List Node) :
    Node.needsParens m children = Node.needsParens n children ↔
      children ≠ [] ∨ (n = 1 ↔ m = 1) := by
  rw [Node.needsParens, Node.needsParens, decide_eq_decide]
  cases children with
  | nil =>
    simp only [List.length_nil, ne_eq, not_true_eq_false, false_or]
    omega
  | cons node nodes =>
    simp only [List.length_cons, ne_eq, reduceCtorEq, not_false_eq_true, true_or, iff_true]
    omega

/-- **The text of a header does not show, unless a space divides it.** Another header with the same
indentation leaves the records as they are if there is something below it, or if spaces divide both
texts into pieces or neither, and only then. A header with nothing below it is written as its
indentation, but with an empty pair of parentheses if spaces divide it. A header with something
below it is always written as what is below it, stripped and in parentheses. -/
theorem transpile_set_header {lines : List Text} {filename : Text} {doc : Document} {line : Line}
    {tokens : Int} {children : List Node} {text : Text}
    (hread : Document.read lines filename = .ok doc)
    (hnode : .subtree line tokens children ∈ Node.flatten doc.roots)
    (hheader : isHeader line.text = true) (htext : isHeader text = true)
    (hindent : (⟨text, line.index⟩ : Line).indent = line.indent) :
    (∃ records, transpile (lines.set line.index.toNat text) filename = .ok records ∧
      (records = doc.records ↔ children ≠ [] ∨
        (Token.countPieces line.content = 1 ↔
          Token.countPieces (⟨text, line.index⟩ : Line).content = 1))) ∧
    (children = [] → (Node.subtree line tokens children).record =
      line.indent ++ if Token.countPieces line.content = 1 then [] else "()".toList) ∧
    (children ≠ [] → (Node.subtree line tokens children).record =
      let body := line.indent ++
        '(' :: Text.stripLeft (List.intercalate ['\n'] (children.map Node.record))
      body ++ Record.closing line.indent body) := by
  obtain ⟨-, houtline⟩ := isOutline_of_read hread
  obtain ⟨hline, n, hcount, rfl⟩ := houtline.nested.isChildLine hnode
  obtain rfl : n = Token.countPieces line.content :=
    Except.ok.inj (hcount.symm.trans (Line.count_of_isHeader hheader))
  have hpos := Line.countPieces_pos_of_isHeader hheader
  refine ⟨?_, ?_, ?_⟩
  · obtain ⟨front, rest, rfl, hindex⟩ := exists_append_of_mem_outlineLines hline
    have hexchanges : Exchanges front line ⟨text, line.index⟩ :=
      ⟨hindex, hindex, hindent, hheader, htext⟩
    have hset : (front ++ line.text :: rest).set line.index.toNat text =
        front ++ text :: rest := by
      simp [hindex]
    have hread' := read_of_isOutline (hexchanges.isOutline houtline) filename
    refine ⟨_, by rw [hset, transpile, hread']; rfl, ?_⟩
    rw [Document.records, Document.records, Node.records_eq_map, Node.records_eq_map,
      hexchanges.records_eq_iff houtline hnode,
      needsParens_eq_iff (Line.countPieces_pos_of_isHeader htext) hpos]
  · rintro rfl
    rw [Node.record_header_nil hheader]
    by_cases hone : Token.countPieces line.content = 1
    · rw [if_pos hone, if_neg (by omega)]
    · rw [if_neg hone, if_pos (by omega)]
  · intro hchildren
    exact Node.record_header_of_ne_nil hheader (by omega) hchildren

/-- A header with a line below it, and another one that a space divides. -/
theorem transpile_set_header_block :
    let below : Node := .subtree ⟨"    x".toList, 2⟩ 1 []
    let header : Node := .subtree ⟨"  ---".toList, 1⟩ 1 [below]
    let doc : Document := ⟨[.subtree ⟨"f".toList, 0⟩ 1 [header]], []⟩
    Document.read ["f".toList, "  ---".toList, "    x".toList] [] = .ok doc ∧
      ∃ records, transpile ["f".toList, "  _ \t".toList, "    x".toList] [] = .ok records ∧
        records = doc.records := by
  intro below header doc
  have hread : Document.read ["f".toList, "  ---".toList, "    x".toList] [] = .ok doc := by
    simp only [doc, header, below, String.reduceToList]
    rfl
  have hnode : header ∈ Node.flatten doc.roots := by
    simp [doc, header]
  have hindent : (⟨"  _ \t".toList, 1⟩ : Line).indent = (⟨"  ---".toList, 1⟩ : Line).indent := by
    decide
  obtain ⟨⟨records, hrecords, hiff⟩, -, -⟩ :=
    transpile_set_header hread hnode (by decide) (by decide) hindent
  exact ⟨hread, records, hrecords, hiff.mpr (.inl (List.cons_ne_nil below []))⟩

/-- Without a line below it, a header that a space divides shows in the records. -/
theorem transpile_header_divided :
    isHeader "---".toList = true ∧ isHeader "--- \t".toList = true ∧
      (⟨"--- \t".toList, 0⟩ : Line).indent = (⟨"---".toList, 0⟩ : Line).indent ∧
      transpile ["---".toList] [] = .ok [[]] ∧
      transpile ["--- \t".toList] [] = .ok ["()".toList] := by
  decide +kernel

end Offside
