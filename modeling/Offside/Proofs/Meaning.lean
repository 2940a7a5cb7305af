import Offside.Proofs.Datum
import Offside.Proofs.Reading

/-!
# What a record means

Each node of an outline stands for data, and `Means node data` says which. A line stands for the
list of its own data and the data below it, or for its one datum if there is nothing to put in a
list. A block header stands for the list of the data below it, and for nothing if nothing is below
it. The compiled text of a file without continuations is read as the data of its roots, in order
(`transpile_means`).

The proof is an induction over the outline. A header strips the records below it, and for that the
text of every node is read in two ways, as it is and stripped (`Nested.expresses`). What stripping
drops is indentation, the records of headers with nothing below them, and the blanks in front of a
content that stands for one datum. Where a content stands for more than one, it is in parentheses,
and its blanks are kept.
-/

namespace Offside

/-! ### Contents of lines -/

section Content

variable {line : Line} {n : Nat}

/-- A line with a place has a token. -/
theorem Line.count_pos (h : line.skipped = false) (hcount : Token.count line.content = .ok n) :
    0 < n := by
  obtain ⟨c, rest, hstrip, hmarker⟩ := Line.exists_stripLeft_content h
  cases hcontent : line.content with
  | nil => simp [hcontent, Text.stripLeft] at hstrip
  | cons d content =>
    have hindent : Line.isIndent d = false := Signal.head?_content line d (by simp [hcontent])
    have hspace : d ≠ ' ' := fun heq => absurd hindent (by simp [heq, Line.isIndent])
    obtain ⟨t, hfolds, rfl⟩ := Token.exists_folds_of_count hcount
    refine Token.countPieces_pos (hcontent ▸ hfolds) hspace fun heq => hmarker ?_
    -- a semicolon is not blank, so it would be the first character of the stripped content
    rw [hcontent, heq, Text.stripLeft, List.dropWhile_cons_of_neg (by decide)] at hstrip
    exact (List.cons.inj hstrip).1.symm

theorem Line.read_content (hfeed : '\n' ∉ line.content) :
    Datum.read line.content = Signal.read (Signal.ofBody line.content) := by
  rw [Datum.read, Signal.ofText_of_not_mem hfeed,
    Signal.ofLine_of_not_indent (Signal.head?_content line)]

/-- A content is read as its tokens. -/
theorem Line.exists_read_content (hfeed : '\n' ∉ line.content)
    (hcount : Token.count line.content = .ok n) :
    ∃ data, Datum.read line.content = some data ∧ data.length = n := by
  obtain ⟨t, hfolds, rfl⟩ := Token.exists_folds_of_count hcount
  rw [line.read_content hfeed]
  exact Signal.exists_read_ofBody hfolds

/-- Stripping a content of one datum drops blanks in front of the datum and nothing else. -/
theorem Line.exists_read_stripLeft {datum : Datum} (h : line.skipped = false)
    (hfeed : '\n' ∉ line.content) (hcount : Token.count line.content = .ok n)
    (hread : Datum.read line.content = some [datum]) :
    ∃ blanks rest, Datum.read (Text.stripLeft line.content) = some [rest] ∧
      datum = blanks ++ rest ∧ ∀ piece ∈ blanks, piece.IsBlank := by
  obtain ⟨c, body, hstrip, hmarker⟩ := Line.exists_stripLeft_content h
  have hc : Text.isBlank c = false := Text.head?_dropWhile c (congrArg List.head? hstrip)
  have hspace : c ≠ ' ' := fun heq => absurd hc (by rw [heq]; decide)
  have hindent : Line.isIndent c = false := Signal.isIndent_eq_false_of_isBlank hc
  -- the content is its blanks and the rest
  obtain ⟨blanks, hblanks, hcontent⟩ : ∃ blanks : Text,
      (∀ d ∈ blanks, Text.isBlank d = true) ∧ line.content = blanks ++ c :: body :=
    ⟨line.content.takeWhile Text.isBlank, fun d hd => List.mem_takeWhile_imp hd,
      by rw [← hstrip, Text.stripLeft, List.takeWhile_append_dropWhile]⟩
  obtain ⟨hquote, hsemicolon⟩ := Signal.not_mem_of_isBlank hblanks
  obtain ⟨t, hfolds, -⟩ := Token.exists_folds_of_count hcount
  rw [hcontent, Comment.strip_mask_append_left hquote hsemicolon] at hfolds
  obtain ⟨t', -, hfolds'⟩ := hfolds.of_append_left fun d hd =>
    ⟨fun heq => absurd (hblanks d hd) (by rw [heq]; decide),
      fun heq => absurd (hblanks d hd) (by rw [heq]; decide)⟩
  -- the rest is read on its own, and the blanks can only go with its first datum
  obtain ⟨data, hdata, hlength⟩ := Signal.exists_read_ofBody hfolds'
  have hpos := Token.countPieces_pos hfolds' hspace hmarker
  obtain ⟨first, rest, rfl⟩ := List.exists_cons_of_length_pos (hlength ▸ hpos)
  rw [line.read_content hfeed, hcontent, Signal.ofBody_append_left hquote hsemicolon] at hread
  obtain ⟨rfl, front, rfl, hfront⟩ := Signal.exists_of_read_append_blank hblanks
    (Signal.head?_ofBody_ne_gap hspace body) hdata hread
  refine ⟨front, first, ?_, rfl, hfront⟩
  have hfeed' : '\n' ∉ c :: body := fun hmem => hfeed (by simp [hcontent, hmem])
  rw [hstrip, Datum.read, Signal.ofText_of_not_mem hfeed',
    Signal.ofLine_of_not_indent (by simpa using hindent), hdata]

end Content

/-! ### Meaning -/

mutual

/-- The data that a node stands for. -/
inductive Means : Node → List Datum → Prop
  /-- A line in parentheses is the list of its own data and those below it. -/
  | list {line : Line} {tokens : Int} {children : List Node} {own data : List Datum}
      (plain : isHeader line.text = false) (parens : Node.needsParens tokens children = true)
      (content : Datum.read line.content = some own) (below : MeansAll children data) :
      Means (.subtree line tokens children) [[.group (own ++ data)]]
  /-- A line without parentheses is its one datum, perhaps without the blanks in front of it. -/
  | single {line : Line} {tokens : Int} {blanks datum : Datum}
      (plain : isHeader line.text = false) (parens : Node.needsParens tokens [] = false)
      (content : Datum.read line.content = some [blanks ++ datum])
      (blank : ∀ piece ∈ blanks, piece.IsBlank) :
      Means (.subtree line tokens []) [datum]
  /-- A header in parentheses is the list of the data below it. -/
  | block {line : Line} {tokens : Int} {children : List Node} {data : List Datum}
      (header : isHeader line.text = true) (parens : Node.needsParens tokens children = true)
      (below : MeansAll children data) : Means (.subtree line tokens children) [[.group data]]
  /-- A header without parentheses is nothing. -/
  | nothing {line : Line} {tokens : Int} (header : isHeader line.text = true)
      (parens : Node.needsParens tokens [] = false) : Means (.subtree line tokens []) []

/-- The data that the nodes of a forest stand for, in order. -/
inductive MeansAll : List Node → List Datum → Prop
  | nil : MeansAll [] []
  | cons {node : Node} {nodes : List Node} {data data' : List Datum} (first : Means node data)
      (rest : MeansAll nodes data') : MeansAll (node :: nodes) (data ++ data')

end

/-- A text is read as the data that a node stands for. -/
def Expresses (text : Text) (node : Node) : Prop :=
  ∃ data, Datum.read text = some data ∧ Means node data

/-- A text is read as the data that the nodes of a forest stand for. -/
def ExpressesAll (text : Text) (nodes : List Node) : Prop :=
  ∃ data, Datum.read text = some data ∧ MeansAll nodes data

theorem ExpressesAll.nil : ExpressesAll [] [] := ⟨[], Datum.read_nil, .nil⟩

theorem ExpressesAll.cons {s t : Text} {node : Node} {nodes : List Node} (h : Expresses s node)
    (h' : ExpressesAll t nodes) : ExpressesAll (s ++ '\n' :: t) (node :: nodes) := by
  obtain ⟨data, hread, hmeans⟩ := h
  obtain ⟨data', hread', hmeans'⟩ := h'
  exact ⟨data ++ data', Datum.read_append_feed hread hread', .cons hmeans hmeans'⟩

theorem ExpressesAll.singleton {text : Text} {node : Node} (h : Expresses text node) :
    ExpressesAll text [node] := by
  obtain ⟨data, hread, hmeans⟩ := h
  exact ⟨data ++ [], by rw [hread, List.append_nil], .cons hmeans .nil⟩

/-- The records of a forest, joined, are read as its data. -/
theorem ExpressesAll.join {nodes : List Node} (h : ∀ node ∈ nodes, Expresses node.record node) :
    ExpressesAll (List.intercalate ['\n'] (nodes.map Node.record)) nodes := by
  induction nodes with
  | nil => exact .nil
  | cons node nodes ih =>
    have hrest := ih fun node' hnode' => h node' (by simp [hnode'])
    cases nodes with
    | nil => simpa using ExpressesAll.singleton (h node (by simp))
    | cons node' nodes =>
      rw [List.map_cons, List.map_cons, List.intercalate_cons_cons, List.append_assoc]
      exact .cons (h node (by simp)) hrest

/-- The records of a forest, joined and stripped, are read as its data. -/
theorem ExpressesAll.stripLeft_join {nodes : List Node}
    (h : ∀ node ∈ nodes, Expresses node.record node)
    (hstrip : ∀ node ∈ nodes, Expresses (Text.stripLeft node.record) node) :
    ExpressesAll (Text.stripLeft (List.intercalate ['\n'] (nodes.map Node.record))) nodes := by
  induction nodes with
  | nil => exact .nil
  | cons node nodes ih =>
    have hnode := hstrip node (by simp)
    have hrest : ∀ node' ∈ nodes, Expresses node'.record node' :=
      fun node' hnode' => h node' (by simp [hnode'])
    cases nodes with
    | nil => simpa using ExpressesAll.singleton hnode
    | cons node' nodes =>
      rw [List.map_cons, List.map_cons, List.intercalate_cons_cons, List.append_assoc,
        Text.stripLeft, List.dropWhile_append]
      split
      · -- the first record is blank: it has no data, and the next record is stripped
        next hblank =>
        obtain ⟨data, hread, hmeans⟩ := hnode
        rw [Text.stripLeft, List.isEmpty_iff.mp hblank, Datum.read_nil] at hread
        obtain rfl := Option.some.inj hread
        obtain ⟨data', hread', hmeans'⟩ :=
          ih hrest fun node' hnode' => hstrip node' (by simp [hnode'])
        exact ⟨data', hread', .cons hmeans hmeans'⟩
      · exact .cons hnode (ExpressesAll.join hrest)

/-! ### Records -/

/-- A node with a token is without parentheses exactly if the token is all there is. -/
theorem Node.needsParens_eq_false_iff {n : Nat} {children : List Node} (hn : 0 < n) :
    Node.needsParens n children = false ↔ children = [] ∧ n = 1 := by
  rw [Node.needsParens, decide_eq_false_iff_not, ← List.length_eq_zero_iff]
  omega

/-- Behind its indentation a record in parentheses has nothing to strip. -/
theorem Datum.read_stripLeft_wrap_true (line : Line) (text : Text) :
    Datum.read (Text.stripLeft (Record.wrap true line.indent text)) =
      Datum.read (Record.wrap true line.indent text) := by
  simp only [Record.wrap, if_true, List.append_assoc, List.cons_append]
  rw [line.stripLeft_append_indent, Datum.read_append_indent line.isIndent_of_mem_indent,
    Text.stripLeft, List.dropWhile_cons_of_neg (by decide)]

/-- In parentheses, the text of a node is read as one list, stripped or not. -/
theorem expresses_of_needsParens {line : Line} {tokens : Int} {children : List Node}
    {data : List Datum} (h : Node.needsParens tokens children = true)
    (hread : Datum.read (Record.inner line (children.map Node.record)) = some data)
    (hmeans : Means (.subtree line tokens children) [[.group data]]) :
    Expresses (Node.subtree line tokens children).record (.subtree line tokens children) ∧
      Expresses (Text.stripLeft (Node.subtree line tokens children).record)
        (.subtree line tokens children) := by
  rw [Node.record, Node.records_eq_map, h]
  have hwrap := Datum.read_wrap_true line.isIndent_of_mem_indent
    (Signal.head?_inner line (children.map Node.record)) hread
  exact ⟨⟨_, hwrap, hmeans⟩, _, (Datum.read_stripLeft_wrap_true line _).trans hwrap, hmeans⟩

/-- The content of a line with the records below it is read as its own data and theirs. -/
theorem exists_read_inner {line : Line} {children : List Node} {own : List Datum}
    (hplain : isHeader line.text = false) (hown : Datum.read line.content = some own)
    (hchildren : ∀ node ∈ children, Expresses node.record node) :
    ∃ data, Datum.read (Record.inner line (children.map Node.record)) = some (own ++ data) ∧
      MeansAll children data := by
  rw [Record.inner, if_neg (by simp [hplain])]
  split
  · next hnil =>
    obtain rfl := List.map_eq_nil_iff.mp (List.isEmpty_iff.mp hnil)
    exact ⟨[], by rw [hown, List.append_nil], .nil⟩
  · obtain ⟨data, hread, hmeans⟩ := ExpressesAll.join hchildren
    exact ⟨data, Datum.read_append_feed hown hread, hmeans⟩

/-- The text of a node is read as what the node stands for, stripped or not, if that is so for the
nodes below it. -/
theorem expresses_subtree {line : Line} {n : Nat} {children : List Node}
    (hkept : line.skipped = false) (hfeed : '\n' ∉ line.content)
    (hcount : Token.count line.content = .ok n)
    (hchildren : ∀ node ∈ children, Expresses node.record node)
    (hstripped : ∀ node ∈ children, Expresses (Text.stripLeft node.record) node) :
    Expresses (Node.subtree line n children).record (.subtree line n children) ∧
      Expresses (Text.stripLeft (Node.subtree line n children).record)
        (.subtree line n children) := by
  obtain ⟨own, hown, hlength⟩ := Line.exists_read_content hfeed hcount
  cases hparens : Node.needsParens n children with
  | true =>
    cases hheader : isHeader line.text with
    | true =>
      obtain ⟨data, hread, hmeans⟩ := ExpressesAll.stripLeft_join hchildren hstripped
      refine expresses_of_needsParens hparens ?_ (.block hheader hparens hmeans)
      rwa [Record.inner, if_pos hheader]
    | false =>
      obtain ⟨data, hread, hmeans⟩ := exists_read_inner hheader hown hchildren
      exact expresses_of_needsParens hparens hread (.list hheader hparens hown hmeans)
  | false =>
    obtain ⟨rfl, rfl⟩ :=
      (Node.needsParens_eq_false_iff (Line.count_pos hkept hcount)).mp hparens
    rw [Node.record, hparens]
    cases hheader : isHeader line.text with
    | true =>
      have hrecord : Record.wrap false line.indent (Record.inner line []) = line.indent ++ [] := by
        simp [Record.wrap, Record.inner, hheader, Text.stripLeft]
      have hmeans : Means (.subtree line 1 []) [] := .nothing hheader hparens
      rw [Node.records, hrecord, line.stripLeft_append_indent]
      refine ⟨⟨[], ?_, hmeans⟩, [], Datum.read_nil, hmeans⟩
      rw [Datum.read_append_indent line.isIndent_of_mem_indent, Datum.read_nil]
    | false =>
      have hrecord : Record.wrap false line.indent (Record.inner line []) =
          line.indent ++ line.content := by
        simp [Record.wrap, Record.inner, hheader]
      obtain ⟨datum, rfl⟩ := List.length_eq_one_iff.mp hlength
      obtain ⟨blanks, rest, hrest, rfl, hblanks⟩ :=
        Line.exists_read_stripLeft hkept hfeed hcount hown
      rw [Node.records, hrecord, line.stripLeft_append_indent]
      refine ⟨⟨[blanks ++ rest], ?_, ?_⟩, [rest], hrest, .single hheader hparens hown hblanks⟩
      · rw [Datum.read_append_indent line.isIndent_of_mem_indent, hown]
      · exact @Means.single line 1 [] (blanks ++ rest) hheader hparens hown (by simp)

/-- In an outline without continuations, the text of every node is read as what the node stands
for. -/
theorem Nested.expresses {lines : List Text} (hlines : ∀ text ∈ lines, '\n' ∉ text) {parent : Int}
    {nodes : List Node} (h : Nested lines parent nodes)
    (hplain : ∀ node ∈ Node.flatten nodes, node.IsSubtree) :
    ∀ node ∈ nodes, Expresses node.record node ∧ Expresses (Text.stripLeft node.record) node := by
  induction h with
  | intro siblings below ih =>
    intro node hnode
    cases node with
    | continuation text number => exact (hplain _ (Node.mem_flatten_self hnode)).elim
    | subtree line tokens children =>
      obtain ⟨hline, n, hcount, rfl⟩ := siblings.counted line tokens children hnode
      have hchildren := ih line n children hnode fun node' hnode' =>
        hplain node' (Node.mem_flatten_of_mem_children hnode hnode')
      exact expresses_subtree (mem_outlineLines.mp hline).1 (not_mem_content hlines hline) hcount
        (fun node' hnode' => (hchildren node' hnode').1)
        (fun node' hnode' => (hchildren node' hnode').2)

theorem ExpressesAll.lines {nodes : List Node} (h : ∀ node ∈ nodes, Expresses node.record node) :
    ExpressesAll ((nodes.map Node.record).flatMap (· ++ ['\n'])) nodes := by
  induction nodes with
  | nil => exact .nil
  | cons node nodes ih =>
    rw [List.map_cons, List.flatMap_cons, List.append_assoc]
    exact .cons (h node (by simp)) (ih fun node' hnode' => h node' (by simp [hnode']))

/-- **The compiled text means the outline.** If a file has an outline without continuations, its
compiled text can be read, and it is read as the data of the roots, in order. -/
theorem transpile_means {lines : List Text} {filename : Text} {doc : Document}
    (hlines : ∀ text ∈ lines, '\n' ∉ text) (hread : Document.read lines filename = .ok doc)
    (hplain : ∀ node ∈ Node.flatten doc.roots, node.IsSubtree) :
    ∃ records data, transpile lines filename = .ok records ∧
      Datum.read (records.flatMap (· ++ ['\n'])) = some data ∧ MeansAll doc.roots data := by
  have hnodes := (isOutline_of_read hread).2.nested.expresses hlines hplain
  obtain ⟨data, hdata, hmeans⟩ := ExpressesAll.lines fun node hnode => (hnodes node hnode).1
  refine ⟨doc.records, data, by rw [transpile, hread]; rfl, ?_, hmeans⟩
  rwa [Document.records, Node.records_eq_map]

/-- An empty block and a line that starts with a form feed, in a block under a line with a
comment. -/
theorem transpile_means_blocks :
    ∃ doc,
      Document.read ["f (g x)\"; \" ; call".toList, "  ---".toList, "    ..".toList,
        "    \x0cy".toList, "    h z ; last".toList, "k".toList] [] = .ok doc ∧
      ∃ records data,
        transpile ["f (g x)\"; \" ; call".toList, "  ---".toList, "    ..".toList,
          "    \x0cy".toList, "    h z ; last".toList, "k".toList] [] = .ok records ∧
        Datum.read (records.flatMap (· ++ ['\n'])) = some data ∧ MeansAll doc.roots data := by
  let doc : Document :=
    ⟨[.subtree ⟨"f (g x)\"; \" ; call".toList, 0⟩ 2
        [.subtree ⟨"  ---".toList, 1⟩ 1
          [.subtree ⟨"    ..".toList, 2⟩ 1 [], .subtree ⟨"    \x0cy".toList, 3⟩ 1 [],
            .subtree ⟨"    h z ; last".toList, 4⟩ 2 []]],
      .subtree ⟨"k".toList, 5⟩ 1 []], []⟩
  have hread : Document.read ["f (g x)\"; \" ; call".toList, "  ---".toList, "    ..".toList,
      "    \x0cy".toList, "    h z ; last".toList, "k".toList] [] = .ok doc := by
    simp only [doc, String.reduceToList]
    rfl
  refine ⟨doc, hread, transpile_means (by decide) hread ?_⟩
  simp [doc, Node.flatten, Node.preorder, Node.preorderAll, Node.IsSubtree]

end Offside
