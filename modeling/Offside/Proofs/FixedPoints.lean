import Offside.Proofs.Counting
import Offside.Proofs.Headers
import Offside.Proofs.Omission
import Offside.Proofs.Reindentation

/-!
# Files that compile to themselves

A file compiles to itself exactly if it is flat (`IsFlat`): every line is a root with one token and
no header. There are as many records as roots and at least as many lines as nodes, so where the
records are the lines, no line is skipped and nothing is below another line.

Compiling a second time changes nothing if the records of a file are the lines of a flat file. They
are if none of them is blank or has a line feed in it, and there are no continuations
(`isFlat_records`). A record on one line may still come from a whole tree, since a header strips
blank records and line feeds in front of what is below it. What is left is a text in parentheses.
It is one token: the tokens inside can be counted, and a comment inside would have put the closing
parenthesis on another line.
-/

namespace Offside

/-! ### Files without nesting -/

/-- A file whose lines are all roots with one token. -/
structure IsFlat (lines : List Text) : Prop where
  placed : ∀ text ∈ lines, (⟨text, 0⟩ : Line).skipped = false
  plain : ∀ text ∈ lines, isHeader text = false
  single : ∀ text ∈ lines, Token.count (⟨text, 0⟩ : Line).content = .ok 1
  aligned : ∃ width : Nat, ∀ text ∈ lines, (⟨text, 0⟩ : Line).width = width
  uniform : ∃ mark : Char, ∀ text ∈ lines, ∀ c ∈ (⟨text, 0⟩ : Line).indent, c = mark
  /-- Only the first line may start with a pipe. -/
  apart : ∀ text ∈ lines.tail, ¬ (⟨text, 0⟩ : Line).HasPipe

/-- A line as a node with nothing below it. -/
def Line.leaf (line : Line) : Node :=
  .subtree line ((Token.count line.content).toOption.getD 0 : Nat) []

theorem Line.leaf_eq {line : Line} {n : Nat} (h : Token.count line.content = .ok n) :
    line.leaf = .subtree line n [] := by
  rw [leaf, h]
  rfl

namespace Node

theorem sublist_flatten (nodes : List Node) : nodes.Sublist (flatten nodes) := by
  induction nodes with
  | nil => exact .slnil
  | cons node nodes ih =>
    rw [flatten_cons]
    exact (List.singleton_sublist.mpr (mem_flatten_self List.mem_cons_self)).append ih

/-- If a forest has no nodes but its roots, nothing is below them. -/
theorem eq_nil_of_flatten_eq_self {nodes children : List Node} {line : Line} {tokens : Int}
    (h : flatten nodes = nodes) (hnode : .subtree line tokens children ∈ nodes) :
    children = [] := by
  obtain ⟨front, back, rfl⟩ := List.append_of_mem hnode
  have hlength := congrArg List.length h
  rw [flatten_append, flatten_cons, flatten_subtree] at hlength
  simp only [List.length_append, List.length_cons] at hlength
  have hfront := (sublist_flatten front).length_le
  have hchildren := (sublist_flatten children).length_le
  have hback := (sublist_flatten back).length_le
  exact List.length_eq_zero_iff.mp (by omega)

/-- Lines can stand next to each other if none but the first has a pipe. -/
theorem isChain_precedes_iff {nodes : List Node} (h : ∀ node ∈ nodes, node.IsSubtree) :
    nodes.IsChain Precedes ↔ ∀ (line : Line) (tokens : Int) (children : List Node),
      .subtree line tokens children ∈ nodes.tail → ¬ line.HasPipe := by
  induction nodes with
  | nil => simp
  | cons node nodes ih =>
    have hrest := ih fun node' hnode' => h node' (List.mem_cons_of_mem node hnode')
    cases nodes with
    | nil => simp
    | cons next nodes =>
      rw [List.isChain_cons_cons, hrest]
      match node, next, h node (by simp), h next (by simp) with
      | .subtree _ _ _, .subtree line tokens children, _, _ =>
        simp only [Precedes, List.tail_cons, List.mem_cons, Node.subtree.injEq]
        constructor
        · rintro ⟨hnext, hothers⟩ line' tokens' children' (⟨rfl, -, -⟩ | hmem)
          · exact hnext
          · exact hothers line' tokens' children' hmem
        · intro hall
          exact ⟨hall line tokens children (.inl ⟨rfl, rfl, rfl⟩),
            fun line' tokens' children' hmem => hall line' tokens' children' (.inr hmem)⟩

theorem flatten_map_leaf (lines : List Line) :
    flatten (lines.map Line.leaf) = lines.map Line.leaf := by
  induction lines with
  | nil => rfl
  | cons line lines ih => rw [List.map_cons, flatten_cons, ih]; rfl

end Node

section Leaves

variable {lines : List Text}

theorem eq_leaf_of_mem_map {found : List Line} {line : Line} {tokens : Int} {children : List Node}
    (h : .subtree line tokens children ∈ found.map Line.leaf) :
    line ∈ found ∧ .subtree line tokens children = line.leaf := by
  obtain ⟨line', hline', heq⟩ := List.mem_map.mp h
  obtain rfl : line' = line := (Node.subtree.inj heq).1
  exact ⟨hline', heq.symm⟩

theorem isSubtree_of_mem_map_leaf {found : List Line} :
    ∀ node ∈ found.map Line.leaf, node.IsSubtree := by
  intro node hnode
  obtain ⟨line, -, rfl⟩ := List.mem_map.mp hnode
  trivial

theorem siblings_map_leaf {width : Nat}
    (hcounted : ∀ line ∈ outlineLines lines, ∃ n, Token.count line.content = .ok n)
    (hwidth : ∀ line ∈ outlineLines lines, line.width = width)
    (hapart : ∀ line ∈ (outlineLines lines).tail, ¬ line.HasPipe) :
    Siblings lines Reader.rootWidth ((outlineLines lines).map Line.leaf) where
  counted := by
    intro line tokens children hnode
    obtain ⟨hline, heq⟩ := eq_leaf_of_mem_map hnode
    obtain ⟨n, hcount⟩ := hcounted line hline
    rw [Line.leaf_eq hcount] at heq
    exact ⟨hline, n, hcount, (Node.subtree.inj heq).2.1⟩
  aligned :=
    ⟨width, by simp only [Reader.rootWidth]; omega,
      fun line tokens children hnode => hwidth line (eq_leaf_of_mem_map hnode).1⟩
  continued := fun text number hnode => (isSubtree_of_mem_map_leaf _ hnode).elim
  apart := by
    rw [Node.isChain_precedes_iff isSubtree_of_mem_map_leaf, ← List.map_tail]
    exact fun line tokens children hnode => hapart line (eq_leaf_of_mem_map hnode).1

/-- When the lines of a file, all of them as roots, are an outline. -/
theorem isOutline_map_leaf_iff :
    IsOutline lines ((outlineLines lines).map Line.leaf) ↔
      (∀ line ∈ outlineLines lines, ∃ n, Token.count line.content = .ok n) ∧
        (∃ width : Nat, ∀ line ∈ outlineLines lines, line.width = width) ∧
        (∃ mark : Char, ∀ line ∈ outlineLines lines, ∀ c ∈ line.indent, c = mark) ∧
        ∀ line ∈ (outlineLines lines).tail, ¬ line.HasPipe := by
  constructor
  · intro h
    have hsiblings := h.nested.siblings
    obtain ⟨width, -, hwidth⟩ := hsiblings.aligned
    refine ⟨fun line hline => ?_, ⟨width, fun line hline => ?_⟩, h.uniform, fun line hline => ?_⟩
    · obtain ⟨-, n, hcount, -⟩ := hsiblings.counted _ _ _ (List.mem_map_of_mem hline)
      exact ⟨n, hcount⟩
    · exact hwidth _ _ _ (List.mem_map_of_mem hline)
    · have hchain := (Node.isChain_precedes_iff h.rooted).mp hsiblings.apart
      rw [← List.map_tail] at hchain
      exact hchain _ _ _ (List.mem_map_of_mem hline)
  · rintro ⟨hcounted, ⟨width, hwidth⟩, huniform, hapart⟩
    refine ⟨?_, isSubtree_of_mem_map_leaf, ?_, huniform⟩
    · rw [Node.numbers, Node.flatten_map_leaf, List.map_map]
      rfl
    · refine .intro (siblings_map_leaf hcounted hwidth hapart) fun line tokens children hnode => ?_
      obtain ⟨-, -, rfl⟩ := Node.subtree.inj (eq_leaf_of_mem_map hnode).2
      exact .nil _ _

/-- Where the records are the lines, no line is skipped and the roots are the lines. -/
theorem IsOutline.eq_map_leaf {roots : List Node} (h : IsOutline lines roots)
    (hrecords : roots.map Node.record = lines) :
    keptLines lines = lines ∧ roots = (outlineLines lines).map Line.leaf := by
  have hmade := h.forall₂_madeOf
  have hkept : (keptLines lines).Sublist lines := List.filter_sublist
  have hroots := Node.sublist_flatten roots
  -- there are as many roots as lines, and at least as many lines as nodes
  have hlength : roots.length = lines.length := by rw [← hrecords, List.length_map]
  have hnodes := hmade.length_eq
  rw [length_outlineLines] at hnodes
  have hle := hkept.length_le
  have hle' := hroots.length_le
  have hflat : Node.flatten roots = roots := (hroots.eq_of_length (by omega)).symm
  refine ⟨hkept.eq_of_length (by omega), ?_⟩
  rw [hflat] at hmade
  have hleaf : List.Forall₂ (fun node line => node = Line.leaf line) roots
      (outlineLines lines) := by
    refine ((List.forall₂_and_left _ _).mpr ⟨fun node hnode => hnode, hmade⟩).imp ?_
    rintro node line ⟨hnode, hmade⟩
    cases hmade with
    | subtree =>
      obtain ⟨-, n, hcount, rfl⟩ := h.nested.siblings.counted _ _ _ hnode
      rw [Line.leaf_eq hcount, Node.eq_nil_of_flatten_eq_self hflat hnode]
    | continuation => exact (h.rooted _ hnode).elim
  rwa [← List.forall₂_map_right_iff, List.forall₂_eq_eq_eq] at hleaf

/-- With an opening parenthesis behind the indentation, there is no header. -/
theorem Line.isHeader_append_opening (line : Line) (text : Text) :
    isHeader (line.indent ++ '(' :: text) = false := by
  let record : Line := ⟨line.indent ++ '(' :: text, 0⟩
  have hleft : Text.stripLeft record.text = '(' :: text := by
    rw [line.stripLeft_append_indent, Text.stripLeft, List.dropWhile_cons_of_neg (by decide)]
  by_contra hheader
  have hseparators : isHeader record.text = true := by simpa using hheader
  obtain ⟨⟨c, hc, rest, hleft'⟩, -⟩ := Line.exists_of_isHeader hseparators
  obtain ⟨rfl, -⟩ := List.cons.inj (hleft.symm.trans hleft')
  exact absurd hc (by decide)

/-- A leaf is written as its line stands exactly if it has one token and is no header. -/
theorem Line.record_leaf_eq_text_iff {line : Line} {n : Nat} (hplaced : line.skipped = false)
    (hcount : Token.count line.content = .ok n) :
    line.leaf.record = line.text ↔ isHeader line.text = false ∧ n = 1 := by
  have hpos := Line.count_pos hplaced hcount
  have hcast : (1 : Int) < n ↔ 1 < n := by omega
  have hparens : Node.needsParens n [] = decide (1 < n) := by simp [Node.needsParens, hcast]
  rw [Line.leaf_eq hcount, Node.record, Node.records, hparens]
  constructor
  · intro hrecord
    by_cases hwrapped : 1 < n
    · rw [Record.wrap, if_pos (decide_eq_true hwrapped)] at hrecord
      simp only [List.append_assoc, List.cons_append] at hrecord
      have hplain : isHeader line.text = false := by
        rw [← hrecord]
        exact line.isHeader_append_opening _
      -- in parentheses a line gets longer
      have hlength := congrArg List.length hrecord
      rw [← line.indent_append_content] at hlength
      simp only [Record.inner, hplain, Bool.false_eq_true, if_false, List.isEmpty_nil, if_true,
        List.length_append, List.length_cons] at hlength
      omega
    · refine ⟨?_, by omega⟩
      by_contra hheader
      obtain ⟨c, rest, hcontent, -⟩ := Line.exists_stripLeft_content hplaced
      rw [← line.stripLeft_text, ← hrecord, Record.wrap, if_neg (by simpa using hwrapped),
        Record.inner, if_pos (by simpa using hheader), line.stripLeft_append_indent] at hcontent
      exact absurd hcontent (by simp [Text.stripLeft])
  · rintro ⟨hplain, rfl⟩
    simp [Record.wrap, Record.inner, hplain, line.indent_append_content]

/-- What compiling gives, by the outline. -/
theorem transpile_eq_ok_iff {records : List Text} {filename : Text} :
    transpile lines filename = .ok records ↔
      ∃ roots, IsOutline lines roots ∧ roots.map Node.record = records := by
  constructor
  · intro h
    cases hread : Document.read lines filename with
    | error d => simp [transpile, hread, Except.map] at h
    | ok doc =>
      rw [transpile, hread] at h
      refine ⟨doc.roots, (isOutline_of_read hread).2, ?_⟩
      rw [← Node.records_eq_map]
      exact Except.ok.inj h
  · rintro ⟨roots, houtline, rfl⟩
    rw [transpile, read_of_isOutline houtline, ← Node.records_eq_map]
    rfl

/-- Where no line is skipped, what holds of the lines holds of those with a place. -/
theorem forall_mem_iff (hkept : keptLines lines = lines) {p : Text → Prop} :
    (∀ text ∈ lines, p text) ↔ ∀ line ∈ outlineLines lines, p line.text := by
  conv_lhs => rw [← hkept, ← map_text_outlineLines]
  exact List.forall_mem_map

theorem forall_mem_tail_iff (hkept : keptLines lines = lines) {p : Text → Prop} :
    (∀ text ∈ lines.tail, p text) ↔ ∀ line ∈ (outlineLines lines).tail, p line.text := by
  conv_lhs => rw [← hkept, ← map_text_outlineLines, ← List.map_tail]
  exact List.forall_mem_map

/-- A file of which the leaves are an outline, all written as they stand, is flat. -/
theorem isFlat_of_leaves (hkept : keptLines lines = lines)
    (houtline : IsOutline lines ((outlineLines lines).map Line.leaf))
    (hrecord : ∀ line ∈ outlineLines lines, line.leaf.record = line.text) : IsFlat lines := by
  obtain ⟨hcounted, ⟨width, hwidth⟩, ⟨mark, hmark⟩, hapart⟩ := isOutline_map_leaf_iff.mp houtline
  have hwritten : ∀ line ∈ outlineLines lines,
      isHeader line.text = false ∧ Token.count line.content = .ok 1 := by
    intro line hline
    obtain ⟨n, hcount⟩ := hcounted line hline
    obtain ⟨hplain, rfl⟩ := (Line.record_leaf_eq_text_iff (mem_outlineLines.mp hline).1
      hcount).mp (hrecord line hline)
    exact ⟨hplain, hcount⟩
  exact {
    placed := (forall_mem_iff hkept).mpr fun line hline => (mem_outlineLines.mp hline).1
    plain := (forall_mem_iff hkept).mpr fun line hline => (hwritten line hline).1
    single := (forall_mem_iff hkept).mpr fun line hline => (hwritten line hline).2
    aligned := ⟨width, (forall_mem_iff hkept).mpr hwidth⟩
    uniform := ⟨mark, (forall_mem_iff hkept).mpr hmark⟩
    apart := (forall_mem_tail_iff hkept).mpr hapart }

namespace IsFlat

variable (h : IsFlat lines)

include h

theorem keptLines_eq : keptLines lines = lines :=
  List.filter_eq_self.mpr fun text htext => by simp [h.placed text htext]

theorem count_eq : ∀ line ∈ outlineLines lines, Token.count line.content = .ok 1 :=
  (forall_mem_iff h.keptLines_eq).mp h.single

theorem isOutline : IsOutline lines ((outlineLines lines).map Line.leaf) := by
  obtain ⟨width, hwidth⟩ := h.aligned
  obtain ⟨mark, hmark⟩ := h.uniform
  exact isOutline_map_leaf_iff.mpr
    ⟨fun line hline => ⟨1, h.count_eq line hline⟩,
      ⟨width, (forall_mem_iff h.keptLines_eq).mp hwidth⟩,
      ⟨mark, (forall_mem_iff h.keptLines_eq).mp hmark⟩,
      (forall_mem_tail_iff h.keptLines_eq).mp h.apart⟩

theorem map_record_leaf : ((outlineLines lines).map Line.leaf).map Node.record = lines := by
  have hrecord : ∀ line ∈ outlineLines lines, line.leaf.record = line.text := by
    intro line hline
    have hplain := (forall_mem_iff h.keptLines_eq).mp h.plain line hline
    exact (Line.record_leaf_eq_text_iff (mem_outlineLines.mp hline).1
      (h.count_eq line hline)).mpr ⟨hplain, rfl⟩
  calc ((outlineLines lines).map Line.leaf).map Node.record
    _ = (outlineLines lines).map Line.text := by
      rw [List.map_map]
      exact List.map_congr_left hrecord
    _ = lines := by rw [map_text_outlineLines, h.keptLines_eq]

end IsFlat

/-- A file compiles to itself exactly if it is flat. -/
theorem transpile_eq_self_iff {filename : Text} :
    transpile lines filename = .ok lines ↔ IsFlat lines := by
  rw [transpile_eq_ok_iff]
  constructor
  · rintro ⟨roots, houtline, hrecords⟩
    obtain ⟨hkept, rfl⟩ := houtline.eq_map_leaf hrecords
    refine isFlat_of_leaves hkept houtline (List.map_inj_left.mp ?_)
    rw [List.map_map] at hrecords
    rw [map_text_outlineLines, hkept]
    exact hrecords
  · intro h
    exact ⟨_, h.isOutline, h.map_record_leaf⟩

end Leaves

/-! ### Texts with tokens that can be counted -/

namespace Token

theorem exists_count_iff {s : Text} :
    (∃ n, count s = .ok n) ↔ Group.Balanced (Comment.strip (Literal.mask s)) := by
  rw [← Group.exists_fold_eq_ok_iff, count, skeleton]
  cases Group.fold (Comment.strip (Literal.mask s)) <;> simp [Except.map]

/-- Blanks in front do not matter. -/
theorem exists_count_stripLeft_iff {s : Text} :
    (∃ n, count (Text.stripLeft s) = .ok n) ↔ ∃ n, count s = .ok n := by
  have hblanks : ∀ c ∈ s.takeWhile Text.isBlank, Text.isBlank c = true :=
    fun c hc => List.mem_takeWhile_imp hc
  have hparen : ∀ c, Text.isBlank c = true → isParen c = false := by
    intro c hc
    by_contra hparen
    rcases eq_or_eq_of_isParen (by simpa using hparen) with rfl | rfl <;>
      exact absurd hc (by decide)
  obtain ⟨hquote, hmarker⟩ := Signal.not_mem_of_isBlank hblanks
  have hsplit : s = s.takeWhile Text.isBlank ++ Text.stripLeft s :=
    List.takeWhile_append_dropWhile.symm
  conv_rhs => rw [hsplit, exists_count_iff, Comment.strip_mask_append_left hquote hmarker]
  rw [exists_count_iff]
  refine Group.balanced_congr ?_
  rw [List.filter_append, filter_of_isBlank hparen hblanks, List.nil_append]

/-- In parentheses, a text without a comment is one token. -/
theorem count_parens {s : Text} (h : ∃ n, count s = .ok n)
    (huncommented : Comment.marker ∉ Literal.mask s) : count ('(' :: (s ++ [')'])) = .ok 1 := by
  have hmask : Literal.mask ('(' :: (s ++ [')'])) = '(' :: (Literal.mask s ++ [')']) := by
    rw [Literal.mask_cons_of_ne (by decide), Literal.mask_append_right (by decide)]
  have hbalanced : Group.Balanced (Literal.mask s) := by
    rwa [exists_count_iff, Comment.strip_mask,
      List.takeWhile_eq_self_iff.mpr (Text.bne_of_not_mem huncommented)] at h
  refine Solid.count_eq (hmask ▸ solid_group hbalanced) ?_
  rw [hmask]
  simpa [Comment.marker] using huncommented

end Token

/-! ### Records on one line -/

/-- What a record is that stands on one line: the indentation of a header with nothing below it, a
line that is one token, or a text in parentheses. -/
inductive OneLine (line : Line) : Text → Prop
  | empty : OneLine line line.indent
  | own (plain : isHeader line.text = false) (single : Token.count line.content = .ok 1) :
      OneLine line line.text
  | group {inside : Text} (single : Token.count ('(' :: (inside ++ [')'])) = .ok 1) :
      OneLine line (line.indent ++ '(' :: (inside ++ [')']))

/-- What is stripped of a record in parentheses is its indentation. -/
theorem Record.append_stripLeft_wrap_true (line : Line) (text : Text) :
    line.indent ++ Text.stripLeft (wrap true line.indent text) = wrap true line.indent text := by
  simp only [wrap, if_true, List.append_assoc, List.cons_append]
  rw [line.stripLeft_append_indent, Text.stripLeft, List.dropWhile_cons_of_neg (by decide)]

/-- Without a line feed, the closing parenthesis of a record is at its end, and there is no comment
in front of it. -/
theorem Record.wrap_true_of_not_mem {line : Line} {text : Text}
    (h : '\n' ∉ wrap true line.indent text) :
    wrap true line.indent text = line.indent ++ '(' :: (text ++ [')']) ∧ '\n' ∉ text ∧
      Comment.marker ∉ Literal.mask text := by
  have hwrap : wrap true line.indent text =
      line.indent ++ '(' :: text ++ closing line.indent (line.indent ++ '(' :: text) := rfl
  obtain ⟨hbody, hclosing⟩ := not_or.mp (mt List.mem_append.mpr (hwrap ▸ h))
  rw [closing, Text.afterLast_of_not_mem hbody] at hwrap hclosing
  cases hstart : Comment.start? (line.indent ++ '(' :: text) with
  | some i => simp [hstart] at hclosing
  | none =>
    have huncommented := Comment.start?_eq_none_iff.mp hstart
    obtain ⟨hquote, -, -⟩ := Signal.not_mem_indent line.isIndent_of_mem_indent
    rw [Literal.mask_append_left hquote, Literal.mask_cons_of_ne (by decide)] at huncommented
    refine ⟨?_, fun hmem => hbody (by simp [hmem]), fun hmem => huncommented (by simp [hmem])⟩
    rw [hwrap, hstart]
    simp

/-- The tokens of a joined text can be counted if it has no line feed behind its blanks and the
tokens of its parts can be counted. -/
theorem exists_count_stripLeft_join {texts : List Text}
    (h : ∀ text ∈ texts, '\n' ∉ Text.stripLeft text →
      ∃ n, Token.count (Text.stripLeft text) = .ok n)
    (hfeed : '\n' ∉ Text.stripLeft (List.intercalate ['\n'] texts)) :
    ∃ n, Token.count (Text.stripLeft (List.intercalate ['\n'] texts)) = .ok n := by
  induction texts with
  | nil => exact ⟨0, rfl⟩
  | cons text texts ih =>
    cases texts with
    | nil =>
      rw [List.intercalate_singleton] at hfeed ⊢
      exact h text (by simp) hfeed
    | cons text' texts =>
      rw [List.intercalate_cons_cons, List.append_assoc, Text.stripLeft,
        List.dropWhile_append] at hfeed ⊢
      split at hfeed
      · -- the first text is blank, and is stripped with the line feed behind it
        next hblank =>
        rw [if_pos hblank]
        exact ih (fun other hother => h other (List.mem_cons_of_mem text hother)) hfeed
      · exact absurd hfeed (by simp)

/-- Inside of a record on one line, tokens can be counted if they can be in the records below. -/
theorem Record.exists_count_inner {line : Line} {texts : List Text}
    (hcount : ∃ n, Token.count line.content = .ok n)
    (h : ∀ text ∈ texts, '\n' ∉ Text.stripLeft text →
      ∃ n, Token.count (Text.stripLeft text) = .ok n)
    (hfeed : '\n' ∉ inner line texts) : ∃ n, Token.count (inner line texts) = .ok n := by
  rw [inner] at hfeed ⊢
  split at hfeed
  · next hheader =>
    rw [if_pos hheader]
    exact exists_count_stripLeft_join h hfeed
  · next hheader =>
    rw [if_neg hheader]
    split at hfeed
    · next hnil => rwa [if_pos hnil]
    · exact absurd hfeed (by simp)

theorem OneLine.exists_count {line : Line} {record : Text} (h : OneLine line record) :
    ∃ n, Token.count (Text.stripLeft record) = .ok n := by
  cases h with
  | empty =>
    have hblank := line.stripLeft_append_indent []
    rw [List.append_nil] at hblank
    rw [hblank]
    exact ⟨0, rfl⟩
  | own plain single =>
    rw [line.stripLeft_text]
    exact Token.exists_count_stripLeft_iff.mpr ⟨1, single⟩
  | group single =>
    rw [line.stripLeft_append_indent]
    exact Token.exists_count_stripLeft_iff.mpr ⟨1, single⟩

/-- The record of a line is on one line if it has no line feed, given the records below. -/
theorem oneLine_subtree {line : Line} {n : Nat} {children : List Node}
    (hplaced : line.skipped = false) (hcount : Token.count line.content = .ok n)
    (hbelow : ∀ node ∈ children, '\n' ∉ Text.stripLeft node.record →
      ∃ n, Token.count (Text.stripLeft node.record) = .ok n)
    (hfeed : '\n' ∉ Text.stripLeft (Node.subtree line n children).record) :
    OneLine line (Node.subtree line n children).record := by
  rw [Node.record, Node.records_eq_map] at hfeed ⊢
  cases hparens : Node.needsParens n children with
  | true =>
    rw [hparens] at hfeed
    have hrecord : '\n' ∉ Record.wrap true line.indent
        (Record.inner line (children.map Node.record)) := by
      rw [← Record.append_stripLeft_wrap_true, List.mem_append, not_or]
      exact ⟨(Signal.not_mem_indent line.isIndent_of_mem_indent).2.2, hfeed⟩
    obtain ⟨heq, hinner, huncommented⟩ := Record.wrap_true_of_not_mem hrecord
    rw [heq]
    refine .group (Token.count_parens (Record.exists_count_inner ⟨n, hcount⟩ ?_ hinner)
      huncommented)
    exact List.forall_mem_map.mpr hbelow
  | false =>
    obtain ⟨rfl, rfl⟩ :=
      (Node.needsParens_eq_false_iff (Line.count_pos hplaced hcount)).mp hparens
    cases hheader : isHeader line.text with
    | true =>
      have hempty : OneLine line line.indent := .empty
      simpa [Record.wrap, Record.inner, hheader, Text.stripLeft] using hempty
    | false =>
      simpa [Record.wrap, Record.inner, hheader, line.indent_append_content] using
        OneLine.own hheader hcount

theorem Nested.oneLine {lines : List Text} {parent : Int} {nodes : List Node}
    (h : Nested lines parent nodes) (hplain : ∀ node ∈ Node.flatten nodes, node.IsSubtree) :
    ∀ (line : Line) (tokens : Int) (children : List Node), .subtree line tokens children ∈ nodes →
      '\n' ∉ Text.stripLeft (Node.subtree line tokens children).record →
      OneLine line (Node.subtree line tokens children).record := by
  induction h with
  | intro siblings below ih =>
    intro line tokens children hnode hfeed
    obtain ⟨hline, n, hcount, rfl⟩ := siblings.counted line tokens children hnode
    refine oneLine_subtree (mem_outlineLines.mp hline).1 hcount (fun node hmem hfeed' => ?_) hfeed
    have hbelow : ∀ node' ∈ Node.flatten children, node'.IsSubtree :=
      fun node' hnode' => hplain node' (Node.mem_flatten_of_mem_children hnode hnode')
    cases node with
    | continuation text number => exact (hbelow _ (Node.mem_flatten_self hmem)).elim
    | subtree line' tokens' children' =>
      exact (ih line n children hnode hbelow line' tokens' children' hmem hfeed').exists_count

/-! ### Compiling twice -/

/-- A record is a line with one token, indented as the line that it comes from. -/
structure StandsFor (line : Line) (record : Text) : Prop where
  indent_eq : (⟨record, 0⟩ : Line).indent = line.indent
  placed : (⟨record, 0⟩ : Line).skipped = false
  plain : isHeader record = false
  single : Token.count (⟨record, 0⟩ : Line).content = .ok 1
  hasPipe : (⟨record, 0⟩ : Line).HasPipe → line.HasPipe

theorem standsFor_group (line : Line) {inside : Text}
    (single : Token.count ('(' :: (inside ++ [')'])) = .ok 1) :
    StandsFor line (line.indent ++ '(' :: (inside ++ [')'])) := by
  let record : Line := ⟨line.indent ++ '(' :: (inside ++ [')']), 0⟩
  obtain ⟨hindent, hcontent⟩ :
      record.indent = line.indent ∧ record.content = '(' :: (inside ++ [')']) :=
    Line.indent_eq_and_content_eq line.isIndent_of_mem_indent (by simp [Line.isIndent])
  have hleft : Text.stripLeft record.text = '(' :: (inside ++ [')']) := by
    rw [record.stripLeft_text, hcontent, Text.stripLeft, List.dropWhile_cons_of_neg (by decide)]
  refine ⟨hindent, ?_, line.isHeader_append_opening _, hcontent.symm ▸ single, fun hpipe => ?_⟩
  · have hblank : record.isBlank = false := by
      rw [record.isBlank_eq, ← record.stripLeft_text, hleft]
      rfl
    have hcomment : record.isComment = false := by
      rw [Line.isComment, hleft]
      rfl
    exact Bool.or_eq_false_iff.mpr ⟨hblank, hcomment⟩
  · have hhead : record.content.head? = some continuationMark := hpipe
    rw [hcontent] at hhead
    exact absurd (Option.some.inj hhead) (by decide)

theorem OneLine.standsFor {line : Line} {record : Text} (h : OneLine line record)
    (hplaced : line.skipped = false) (hvisible : record.all Text.isBlank = false) :
    StandsFor line record := by
  cases h with
  | empty =>
    have hblank : line.indent.all Text.isBlank = true :=
      List.all_eq_true.mpr fun c hc => Signal.isBlank_of_isIndent (line.isIndent_of_mem_indent c hc)
    exact absurd hblank (by simp [hvisible])
  | own plain single => exact ⟨rfl, hplaced, plain, single, id⟩
  | group single => exact standsFor_group line single

/-- Records on one line are the lines of a flat file. -/
theorem IsOutline.isFlat_records {lines : List Text} {roots : List Node}
    (h : IsOutline lines roots) (hplain : ∀ node ∈ Node.flatten roots, node.IsSubtree)
    (hrecords : ∀ record ∈ roots.map Node.record,
      '\n' ∉ record ∧ record.all Text.isBlank = false) :
    IsFlat (roots.map Node.record) := by
  have hstands : ∀ (line : Line) (tokens : Int) (children : List Node),
      .subtree line tokens children ∈ roots →
        StandsFor line (Node.subtree line tokens children).record := by
    intro line tokens children hnode
    obtain ⟨hline, -⟩ := h.nested.siblings.counted line tokens children hnode
    obtain ⟨hfeed, hvisible⟩ := hrecords _ (List.mem_map_of_mem hnode)
    have honeLine := h.nested.oneLine hplain line tokens children hnode fun hmem =>
      hfeed ((List.dropWhile_sublist Text.isBlank).subset hmem)
    exact honeLine.standsFor (mem_outlineLines.mp hline).1 hvisible
  -- what is left is to say of the records what is known of the lines
  have hall {nodes : List Node} {p : Text → Prop} (hnodes : ∀ node ∈ nodes, node ∈ roots)
      (hp : ∀ (line : Line) (tokens : Int) (children : List Node),
        .subtree line tokens children ∈ nodes →
          StandsFor line (Node.subtree line tokens children).record →
          p (Node.subtree line tokens children).record) :
      ∀ record ∈ nodes.map Node.record, p record := by
    refine List.forall_mem_map.mpr fun node hnode => ?_
    cases node with
    | continuation text number => exact (h.rooted _ (hnodes _ hnode)).elim
    | subtree line tokens children =>
      exact hp line tokens children hnode (hstands line tokens children (hnodes _ hnode))
  obtain ⟨width, -, hwidth⟩ := h.nested.siblings.aligned
  obtain ⟨mark, hmark⟩ := h.uniform
  have hapart := (Node.isChain_precedes_iff h.rooted).mp h.nested.siblings.apart
  exact {
    placed := hall (fun _ => id) fun _ _ _ _ hrecord => hrecord.placed
    plain := hall (fun _ => id) fun _ _ _ _ hrecord => hrecord.plain
    single := hall (fun _ => id) fun _ _ _ _ hrecord => hrecord.single
    aligned := by
      refine ⟨width, hall (fun _ => id) fun line tokens children hnode hrecord => ?_⟩
      rw [Line.width, hrecord.indent_eq]
      exact hwidth line tokens children hnode
    uniform := by
      refine ⟨mark, hall (fun _ => id) fun line tokens children hnode hrecord => ?_⟩
      rw [hrecord.indent_eq]
      exact hmark line (h.nested.siblings.counted line tokens children hnode).1
    apart := by
      rw [← List.map_tail]
      exact hall (fun _ => List.mem_of_mem_tail) fun line tokens children hnode hrecord hpipe =>
        hapart line tokens children hnode (hrecord.hasPipe hpipe) }

/-- **The flat files are the fixed points.** A file compiles to itself exactly if it is flat. If a
file has an outline without continuations, and none of its records is blank or has a line feed in
it, then its records compile to themselves. -/
theorem transpile_fixed_points (filename : Text) :
    (∀ lines, transpile lines filename = .ok lines ↔ IsFlat lines) ∧
      ∀ lines doc, Document.read lines filename = .ok doc →
        (∀ node ∈ Node.flatten doc.roots, node.IsSubtree) →
        (∀ record ∈ doc.records, '\n' ∉ record ∧ record.all Text.isBlank = false) →
        transpile lines filename = .ok doc.records ∧
          transpile doc.records filename = .ok doc.records := by
  refine ⟨fun lines => transpile_eq_self_iff, fun lines doc hread hplain hrecords => ?_⟩
  refine ⟨by rw [transpile, hread]; rfl, transpile_eq_self_iff.mpr ?_⟩
  rw [Document.records, Node.records_eq_map] at hrecords ⊢
  exact (isOutline_of_read hread).2.isFlat_records hplain hrecords

/-- A header over an empty header and a line with two tokens has a record on one line. -/
theorem transpile_fixed_points_header :
    let lines := ["  -- ".toList, "    ..".toList, "    a b".toList, "  c".toList]
    ∃ doc, Document.read lines [] = .ok doc ∧
      doc.records = ["  ((a b))".toList, "  c".toList] ∧
      transpile lines [] = .ok doc.records ∧ transpile doc.records [] = .ok doc.records ∧
      IsFlat doc.records := by
  intro lines
  let doc : Document :=
    ⟨[.subtree ⟨"  -- ".toList, 0⟩ 1
        [.subtree ⟨"    ..".toList, 1⟩ 1 [], .subtree ⟨"    a b".toList, 2⟩ 2 []],
      .subtree ⟨"  c".toList, 3⟩ 1 []], []⟩
  have hread : Document.read lines [] = .ok doc := by
    simp only [lines, doc, String.reduceToList]
    rfl
  have hrecords : doc.records = ["  ((a b))".toList, "  c".toList] := by
    simp only [doc, String.reduceToList]
    rfl
  have htwice := (transpile_fixed_points []).2 lines doc hread
    (by simp [doc, Node.flatten, Node.preorder, Node.preorderAll, Node.IsSubtree])
    (by rw [hrecords]; decide)
  exact ⟨doc, hread, hrecords, htwice.1, htwice.2,
    ((transpile_fixed_points []).1 doc.records).mp htwice.2⟩

end Offside
