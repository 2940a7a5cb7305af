import Offside.Outline.Listing
import Offside.Proofs.Likeness
import Offside.Proofs.LineBreaks
import Offside.Proofs.Spelling

/-!
# What a listing tells

A listing is for reading, and all that it shows of an outline can be read off it
(`listing_lossless`). Two outlines of files with one name have the same listing exactly when they
have one shape and corresponding nodes agree in all that is shown of them.

The argument goes from the text to its lines, from a line to its node, and from the nodes to the
forest:

* No entry has a line break in it, so the lines of the text are the entries, one for each node.
* An entry tells what it is about (`Node.entry_subtree_eq_iff`, `Node.entry_continuation_inj`):
  numbers end at a space, and a quoted text tells what it quotes.
* An entry also tells how many children follow. So the entries of a tree end where the tree does,
  whatever comes next (`Node.recovers`), and that is how a forest is taken apart.
-/

namespace Offside

/-! ### Entries -/

/-- Two lines are shown alike: both are headers or neither is, and they have the same number and
the same content. Their indentation does not matter. -/
structure Line.ShownAlike (line line' : Line) : Prop where
  header : isHeader line.text = isHeader line'.text
  number : line.number = line'.number
  content : line.content = line'.content

/-- Two trees are shown alike: they have one shape, lines that correspond are shown alike and have
the same number of tokens, and continuations that correspond are the same. -/
abbrev Node.ShownAlike : Node → Node → Prop := Alike Line.ShownAlike Eq

/-- The kind of a line, as its entry names it. -/
def Line.kind (line : Line) : Text :=
  if isHeader line.text then "Header L".toList else "Subtree L".toList

/-- The first letter of a kind tells a header from another line. -/
theorem Line.kind_append_inj {line line' : Line} {s t : Text}
    (h : line.kind ++ s = line'.kind ++ t) :
    isHeader line.text = isHeader line'.text ∧ s = t := by
  rw [kind, kind] at h
  split_ifs at h with hline hline' hline'
  · exact ⟨hline.trans hline'.symm, List.append_cancel_left h⟩
  · exact absurd (List.cons.inj h).1 (by decide)
  · exact absurd (List.cons.inj h).1 (by decide)
  · simp only [Bool.not_eq_true] at hline hline'
    exact ⟨hline.trans hline'.symm, List.append_cancel_left h⟩

namespace Node

section Entry

variable {line line' : Line} {tokens tokens' : Int} {children children' : List Node}

/-- In an entry, every number ends at a space. -/
theorem entry_subtree (line : Line) (tokens : Int) (children : List Node) :
    (Node.subtree line tokens children).entry =
      line.kind ++ (Text.ofInt line.number ++ ' ' ::
        ("tokens=".toList ++ (Text.ofInt tokens ++ ' ' ::
          ("children=".toList ++ (Text.ofInt children.length ++ ' ' ::
            ((if needsParens tokens children then "parens ".toList else []) ++
              Text.quoted line.content)))))) := by
  have hparens : (if needsParens tokens children then " parens ".toList else [' ']) =
      ' ' :: (if needsParens tokens children then "parens ".toList else []) := by
    split <;> rfl
  have hentry : (Node.subtree line tokens children).entry =
      line.kind ++ Text.ofInt line.number ++ ' ' :: "tokens=".toList ++ Text.ofInt tokens
        ++ ' ' :: "children=".toList ++ Text.ofInt children.length
        ++ (if needsParens tokens children then " parens ".toList else [' '])
        ++ Text.quoted line.content := rfl
  rw [hentry, hparens]
  simp only [List.append_assoc, List.cons_append]

theorem entry_continuation (text : Text) (number : Int) :
    (Node.continuation text number).entry =
      "Continuation L".toList ++ (Text.ofInt number ++ ' ' :: Text.quoted text) := rfl

/-- Two lines have the same entry exactly if they are shown alike, with the same number of tokens
and of children. -/
theorem entry_subtree_eq_iff :
    (Node.subtree line tokens children).entry = (Node.subtree line' tokens' children').entry ↔
      line.ShownAlike line' ∧ tokens = tokens' ∧ children.length = children'.length := by
  have hparens (htokens : tokens = tokens') (hlength : children.length = children'.length) :
      needsParens tokens children = needsParens tokens' children' := by
    rw [needsParens, needsParens, hlength, htokens]
  rw [entry_subtree, entry_subtree]
  constructor
  · intro h
    obtain ⟨hheader, h⟩ := Line.kind_append_inj h
    obtain ⟨hnumber, h⟩ := Text.ofInt_append_space_inj h
    obtain ⟨htokens, h⟩ := Text.ofInt_append_space_inj (List.append_cancel_left h)
    obtain ⟨hlength, h⟩ := Text.ofInt_append_space_inj (List.append_cancel_left h)
    rw [Int.ofNat_inj] at hlength
    -- whether there are parentheses follows from the two counts, and what is left is the content
    rw [hparens htokens hlength] at h
    have hcontent := Text.quoted_injective (List.append_cancel_left h)
    exact ⟨⟨hheader, hnumber, hcontent⟩, htokens, hlength⟩
  · rintro ⟨h, htokens, hlength⟩
    rw [Line.kind, Line.kind, h.header, h.number, h.content, hparens htokens hlength, htokens,
      hlength]

theorem entry_continuation_inj {text text' : Text} {number number' : Int}
    (h : (Node.continuation text number).entry = (Node.continuation text' number').entry) :
    text = text' ∧ number = number' := by
  rw [entry_continuation, entry_continuation] at h
  obtain ⟨hnumber, h⟩ := Text.ofInt_append_space_inj (List.append_cancel_left h)
  exact ⟨Text.quoted_injective h, hnumber⟩

theorem entry_subtree_ne_continuation {text : Text} {number : Int} :
    (Node.subtree line tokens children).entry ≠ (Node.continuation text number).entry := by
  have hkind : ∃ c rest, line.kind = c :: rest ∧ c ≠ 'C' := by
    rw [Line.kind]
    split
    · exact ⟨'H', "eader L".toList, rfl, by decide⟩
    · exact ⟨'S', "ubtree L".toList, rfl, by decide⟩
  obtain ⟨c, rest, hkind, hne⟩ := hkind
  have hcontinuation : "Continuation L".toList = 'C' :: "ontinuation L".toList := rfl
  rw [entry_subtree, entry_continuation, hkind, hcontinuation, List.cons_append, List.cons_append]
  exact fun h => hne (List.cons.inj h).1

end Entry

theorem isPrintable_of_mem_entry (node : Node) : ∀ c ∈ node.entry, Text.isPrintable c = true := by
  have hspace : Text.isPrintable ' ' = true := Text.isPrintable_of_ascii (by decide) (by decide)
  have hnumber (n : Int) : ∀ c ∈ Text.ofInt n, Text.isPrintable c = true :=
    fun _ => Text.isPrintable_of_mem_ofInt
  have hquoted (s : Text) : ∀ c ∈ Text.quoted s, Text.isPrintable c = true :=
    fun _ => Text.isPrintable_of_mem_quoted
  rcases node with ⟨line, tokens, children⟩ | ⟨text, number⟩
  · have hkind : ∀ c ∈ line.kind, Text.isPrintable c = true := by
      rw [Line.kind]
      split <;> exact Text.isPrintable_of_mem_ascii rfl
    have hparens : ∀ c ∈ (if needsParens tokens children then "parens ".toList else []),
        Text.isPrintable c = true := by
      split <;> exact Text.isPrintable_of_mem_ascii rfl
    rw [entry_subtree]
    simp only [List.forall_mem_append, List.forall_mem_cons]
    exact ⟨hkind, hnumber _, hspace, Text.isPrintable_of_mem_ascii rfl, hnumber _, hspace,
      Text.isPrintable_of_mem_ascii rfl, hnumber _, hspace, hparens, hquoted _⟩
  · rw [entry_continuation]
    simp only [List.forall_mem_append, List.forall_mem_cons]
    exact ⟨Text.isPrintable_of_mem_ascii rfl, hnumber _, hspace, hquoted _⟩

/-! ### Lines of a listing -/

/-- The lines of a listing for a forest whose roots are at the given depth: one for each node, in
preorder, and indented by the depth of the node. -/
def listed (depth : Nat) (nodes : List Node) : List Text :=
  (preorderAll depth nodes).map fun (depth, node) => List.replicate (2 * depth) ' ' ++ node.entry

theorem listed_cons (depth : Nat) (node : Node) (nodes : List Node) :
    listed depth (node :: nodes) = listed depth [node] ++ listed depth nodes := by
  simp only [listed, preorderAll, List.append_nil, List.map_append]

theorem listed_subtree (depth : Nat) (line : Line) (tokens : Int) (children : List Node) :
    listed depth [.subtree line tokens children] =
      (List.replicate (2 * depth) ' ' ++ (Node.subtree line tokens children).entry) ::
        listed (depth + 1) children := by
  simp only [listed, preorderAll, preorder, List.append_nil, List.map_cons]

theorem listed_continuation (depth : Nat) (text : Text) (number : Int) :
    listed depth [.continuation text number] =
      [List.replicate (2 * depth) ' ' ++ (Node.continuation text number).entry] := rfl

theorem isPrintable_of_mem_listed {depth : Nat} {nodes : List Node} {line : Text}
    (h : line ∈ listed depth nodes) : ∀ c ∈ line, Text.isPrintable c = true := by
  obtain ⟨⟨d, node⟩, -, rfl⟩ := List.mem_map.mp h
  intro c hc
  rcases List.mem_append.mp hc with hc | hc
  · rw [List.eq_of_mem_replicate hc]
    exact Text.isPrintable_of_ascii (by decide) (by decide)
  · exact isPrintable_of_mem_entry node c hc

end Node

theorem Document.listing_eq (doc : Document) :
    doc.listing = ("Document ".toList ++ doc.filename) ++
      '\n' :: (Node.listed 1 doc.roots).flatMap (· ++ ['\n']) := by
  rw [Document.listing, Document.listingLines, List.flatMap_cons, List.append_assoc]
  rfl

/-- What is printable has no line break in it. -/
theorem Text.unbroken_of_isPrintable {s : Text} (h : ∀ c ∈ s, Text.isPrintable c = true) :
    s.Unbroken :=
  ⟨fun hreturn => absurd (h _ hreturn) (by decide +kernel),
    fun hfeed => absurd (h _ hfeed) (by decide +kernel)⟩

theorem splitLines_flatMap_feed {lines : List Text} (h : ∀ line ∈ lines, line.Unbroken) :
    splitLines (lines.flatMap (· ++ ['\n'])) = lines := by
  induction lines with
  | nil => rfl
  | cons line lines ih =>
    have hline : EndedLine.written ⟨line, .lf, h line (by simp)⟩ = line ++ ['\n'] := rfl
    rw [List.flatMap_cons, ← hline, EndedLine.splitLines_append _ (by simp),
      ih fun other hother => h other (by simp [hother])]

/-- The lines below the first one of a listing are those of the nodes. -/
theorem Node.splitLines_listed (depth : Nat) (nodes : List Node) :
    splitLines ((Node.listed depth nodes).flatMap (· ++ ['\n'])) = Node.listed depth nodes :=
  splitLines_flatMap_feed fun _ h => Text.unbroken_of_isPrintable (isPrintable_of_mem_listed h)

/-! ### From lines to trees -/

namespace Node

/-- The lines of a tree tell what the tree shows and where its lines end, whatever follows. -/
def Recovers (node : Node) : Prop :=
  ∀ (depth : Nat) (other : Node) (rest rest' : List Text),
    listed depth [node] ++ rest = listed depth [other] ++ rest' →
      node.ShownAlike other ∧ rest = rest'

/-- As many trees as are known to follow are recovered one after the other. -/
theorem forall₂_of_recovers {nodes : List Node} (h : ∀ node ∈ nodes, node.Recovers) {depth : Nat}
    {others : List Node} {rest rest' : List Text} (hlength : nodes.length = others.length)
    (heq : listed depth nodes ++ rest = listed depth others ++ rest') :
    List.Forall₂ Node.ShownAlike nodes others ∧ rest = rest' := by
  induction nodes generalizing others with
  | nil =>
    obtain rfl := List.eq_nil_of_length_eq_zero hlength.symm
    exact ⟨.nil, heq⟩
  | cons node nodes ih =>
    obtain ⟨other, others, rfl⟩ := List.exists_cons_of_length_eq_add_one hlength.symm
    rw [listed_cons, listed_cons depth other, List.append_assoc, List.append_assoc] at heq
    obtain ⟨hnode, heq⟩ := h node (by simp) depth other _ _ heq
    obtain ⟨hnodes, hrest⟩ := ih (fun node' hnode' => h node' (by simp [hnode']))
      (by simpa using hlength) heq
    exact ⟨.cons hnode hnodes, hrest⟩

theorem recovers (node : Node) : node.Recovers := by
  induction node using Node.induction with
  | continuation text number =>
    rintro depth (⟨line, tokens, children⟩ | ⟨text', number'⟩) rest rest' heq
    · rw [listed_continuation, listed_subtree] at heq
      have hentry := List.append_cancel_left (List.cons.inj heq).1
      exact absurd hentry.symm entry_subtree_ne_continuation
    · rw [listed_continuation, listed_continuation] at heq
      obtain ⟨hline, hrest⟩ := List.cons.inj heq
      obtain ⟨rfl, rfl⟩ := entry_continuation_inj (List.append_cancel_left hline)
      exact ⟨.continuation rfl, hrest⟩
  | subtree line tokens children ih =>
    rintro depth (⟨line', tokens', children'⟩ | ⟨text, number⟩) rest rest' heq
    · rw [listed_subtree, listed_subtree] at heq
      obtain ⟨hline, hrest⟩ := List.cons.inj heq
      obtain ⟨hshown, rfl, hlength⟩ := entry_subtree_eq_iff.mp (List.append_cancel_left hline)
      -- the entry says how many trees follow at the next depth
      obtain ⟨hbelow, hrest⟩ := forall₂_of_recovers ih hlength hrest
      exact ⟨.subtree hshown (needsParens_eq_of_forall₂ tokens hbelow) hbelow, hrest⟩
    · rw [listed_subtree, listed_continuation] at heq
      have hentry := List.append_cancel_left (List.cons.inj heq).1
      exact absurd hentry entry_subtree_ne_continuation

theorem listed_ne_nil (depth : Nat) (node : Node) (nodes : List Node) :
    listed depth (node :: nodes) ≠ [] := by
  rw [listed_cons]
  rcases node with ⟨line, tokens, children⟩ | ⟨text, number⟩
  · rw [listed_subtree, List.cons_append]
    exact List.cons_ne_nil _ _
  · rw [listed_continuation, List.cons_append]
    exact List.cons_ne_nil _ _

/-- A forest is recovered from all of its lines. -/
theorem forall₂_of_listed_eq {depth : Nat} {nodes others : List Node}
    (h : listed depth nodes = listed depth others) :
    List.Forall₂ Node.ShownAlike nodes others := by
  induction nodes generalizing others with
  | nil =>
    rcases others with _ | ⟨other, others⟩
    · exact .nil
    · exact absurd h.symm (listed_ne_nil depth other others)
  | cons node nodes ih =>
    rcases others with _ | ⟨other, others⟩
    · exact absurd h (listed_ne_nil depth node nodes)
    · rw [listed_cons, listed_cons depth other] at h
      obtain ⟨hnode, hrest⟩ := node.recovers depth other _ _ h
      exact .cons hnode (ih hrest)

/-! ### From trees to lines -/

/-- Forests whose trees have the same lines have the same lines. -/
theorem listed_eq_of_forall₂ {nodes others : List Node} {depth : Nat}
    (h : List.Forall₂ (fun node other => listed depth [node] = listed depth [other]) nodes others) :
    listed depth nodes = listed depth others := by
  induction h with
  | nil => rfl
  | @cons node other nodes others hnode _ ih =>
    rw [listed_cons, listed_cons depth other, hnode, ih]

/-- Trees that show the same have the same lines. -/
theorem listed_eq_of_alike {node other : Node} (h : node.ShownAlike other)
    (depth : Nat) : listed depth [node] = listed depth [other] := by
  induction node using Node.induction generalizing other depth with
  | continuation text number =>
    rcases h with _ | heq
    rw [heq]
  | subtree line tokens children ih =>
    rcases h with ⟨hlines, -, hbelow⟩ | _
    have hboth := (List.forall₂_and_left _ _).mpr ⟨ih, hbelow⟩
    have hchildren := listed_eq_of_forall₂ (hboth.imp fun _ _ h => h.1 h.2 (depth + 1))
    rw [listed_subtree, listed_subtree, hchildren,
      entry_subtree_eq_iff.mpr ⟨hlines, rfl, hbelow.length_eq⟩]

end Node

/-- **A listing loses nothing that it shows.** Two outlines of files with one name have the same
listing exactly when they have one shape, and corresponding nodes are of one kind with the same
number, and the same tokens and content or the same text. Below the name of the file, the listing
has one line of printable characters for each node, in preorder and indented by its depth. -/
theorem listing_lossless (doc other : Document) (h : doc.filename = other.filename) :
    (doc.listing = other.listing ↔
      List.Forall₂ Node.ShownAlike doc.roots other.roots) ∧
    ∃ body, doc.listing = ("Document ".toList ++ doc.filename) ++ '\n' :: body ∧
      splitLines body = Node.listed 1 doc.roots ∧
      ∀ line ∈ splitLines body, ∀ c ∈ line, Text.isPrintable c = true := by
  refine ⟨⟨fun hlisting => ?_, fun halike => ?_⟩, _, doc.listing_eq,
    Node.splitLines_listed 1 doc.roots, fun line hline => ?_⟩
  · rw [doc.listing_eq, other.listing_eq, h] at hlisting
    have hbody := (List.cons.inj (List.append_cancel_left hlisting)).2
    have hlisted : Node.listed 1 doc.roots = Node.listed 1 other.roots := by
      rw [← Node.splitLines_listed, hbody, Node.splitLines_listed]
    exact Node.forall₂_of_listed_eq hlisted
  · have hlisted := halike.imp fun _ _ halike => Node.listed_eq_of_alike halike 1
    rw [doc.listing_eq, other.listing_eq, h, Node.listed_eq_of_forall₂ hlisted]
  · rw [Node.splitLines_listed] at hline
    exact Node.isPrintable_of_mem_listed hline

/-- Two hand-made outlines that differ in their indentation alone, with all quotes and a line
feed in their texts. -/
theorem listing_lossless_indentation :
    let text := "\n\\\"'\x00".toList
    let doc : Document := ⟨[.subtree ⟨" it's".toList, 0⟩ (-1) [.continuation text 2]], []⟩
    let other : Document := ⟨[.subtree ⟨"\tit's".toList, 0⟩ (-1) [.continuation text 2]], []⟩
    doc.filename = other.filename ∧ doc.listing = other.listing ∧
      List.Forall₂ Node.ShownAlike doc.roots other.roots := by
  intro text doc other
  have hlisting : doc.listing = other.listing := by decide +kernel
  exact ⟨rfl, hlisting, (listing_lossless doc other rfl).1.mp hlisting⟩

end Offside
