import Offside.Proofs.Forest

/-!
# Placing a line

The reader keeps the lines that are still open as a stack, the innermost first, and looks for
the place of a line from the inside. Seen from the forest read so far, the stack is the chain of
lines that is reached from the root by always going to the last child, as long as that is a
line. `Opens parent nodes above level stack` says that `level` and `stack` are the forest
`nodes`, opened along this chain, on top of the open lines `above`.

In a forest in order, a line has one of three fates:

* the forest grows by it (`Grows`), and the reader has it placed (`Opens.place_of_grows`);
* the forest refuses it (`Refuses`), and so does the reader (`Opens.place_of_refuses`);
* it is not wider than the parent of the whole forest and does not continue it either.

The third case does not arise at the root of a file (`Nested.grows_or_refuses`).
-/

namespace Offside

/-! ### The open lines of a forest -/

namespace Node

mutual

/-- The line of a tree and its last lines further down, as long as the last child is a line. Each
comes with its children, the outermost first. -/
def openLines : Node → List (Line × List Node)
  | .subtree line _ children => (line, children) :: lastOpenLines children
  | .continuation _ _ => []

/-- The open lines of the last of the nodes. -/
def lastOpenLines : List Node → List (Line × List Node)
  | [] => []
  | [node] => node.openLines
  | _ :: node :: nodes => lastOpenLines (node :: nodes)

end

theorem lastOpenLines_concat (nodes : List Node) (node : Node) :
    lastOpenLines (nodes ++ [node]) = node.openLines := by
  induction nodes with
  | nil => rfl
  | cons first nodes ih =>
    obtain ⟨second, rest, hrest⟩ := List.exists_cons_of_ne_nil (by simp : nodes ++ [node] ≠ [])
    rw [List.cons_append, hrest, lastOpenLines, ← hrest, ih]

end Node

/-- Every open line of a forest in order is wider than the parent of the forest. -/
theorem Nested.lt_of_mem_lastOpenLines {lines : List Text} {parent : Int} {nodes : List Node}
    (h : Nested lines parent nodes) :
    ∀ entry ∈ Node.lastOpenLines nodes, parent < entry.1.width := by
  induction h with
  | @intro parent nodes siblings below ih =>
    intro entry hentry
    rcases List.eq_nil_or_concat' nodes with rfl | ⟨front, node, rfl⟩
    · simp [Node.lastOpenLines] at hentry
    · rw [Node.lastOpenLines_concat] at hentry
      cases node with
      | continuation text number => simp [Node.openLines] at hentry
      | subtree last tokens children =>
        have hlast := (siblings_concat_subtree.mp siblings).2.2.wider
        rw [Node.openLines, List.mem_cons] at hentry
        rcases hentry with rfl | hentry
        · exact hlast
        · exact Int.lt_trans hlast (ih last tokens children (by simp) entry hentry)

/-! ### Opening a forest -/

/-- The width of a node that is a line. -/
def Node.width? : Node → Option Nat
  | .subtree line _ _ => some line.width
  | .continuation _ _ => none

/-- The level of nodes that are all closed. -/
def Level.ofNodes (parent : Int) (nodes : List Node) : Level :=
  ⟨parent, nodes.reverse.findSome? Node.width?, nodes.reverse⟩

/-- A line opened behind siblings that are all closed. -/
def OpenLine.after (parent : Int) (nodes : List Node) (line : Line) (tokens : Nat) : OpenLine :=
  ⟨line, tokens, { Level.ofNodes parent nodes with childWidth := some line.width }⟩

/-- A forest, opened along its last lines on top of the open lines `above`. -/
inductive Opens : Int → List Node → List OpenLine → Level → List OpenLine → Prop
  | flat {parent : Int} {nodes : List Node} {above : List OpenLine}
      (last : ∀ node ∈ nodes.getLast?, ¬ node.IsSubtree) :
      Opens parent nodes above (.ofNodes parent nodes) above
  | deep {parent : Int} {nodes : List Node} {line : Line} {tokens : Nat} {children : List Node}
      {above stack : List OpenLine} {level : Level}
      (inner : Opens line.width children (.after parent nodes line tokens :: above) level stack) :
      Opens parent (nodes ++ [.subtree line tokens children]) above level stack

theorem OpenLine.close_after (parent : Int) (nodes : List Node) (line : Line) (tokens : Nat)
    (children : List Node) :
    (OpenLine.after parent nodes line tokens).close (.ofNodes line.width children) =
      .ofNodes parent (nodes ++ [.subtree line tokens children]) := by
  simp [OpenLine.after, OpenLine.close, Level.ofNodes, Level.add, Level.toList,
    List.findSome?_cons, Node.width?]

/-- Closing every open line gives the forest back. -/
theorem Opens.closeAll_eq {parent : Int} {nodes : List Node} {above stack : List OpenLine}
    {level : Level} (h : Opens parent nodes above level stack) :
    level.closeAll stack = (Level.ofNodes parent nodes).closeAll above := by
  induction h with
  | flat last => rfl
  | deep inner ih => rw [ih, Level.closeAll, OpenLine.close_after]

/-- An empty forest is opened by the level with nothing read. -/
theorem Opens.nil (parent : Int) (above : List OpenLine) :
    Opens parent [] above (.under parent) above :=
  .flat (by simp)

/-- The last line of an opened forest is open. -/
theorem Opens.inner_of_concat {parent : Int} {nodes : List Node} {line : Line} {tokens : Int}
    {children : List Node} {above stack : List OpenLine} {level : Level}
    (h : Opens parent (nodes ++ [.subtree line tokens children]) above level stack) :
    ∃ n : Nat, tokens = n ∧
      Opens line.width children (.after parent nodes line n :: above) level stack := by
  generalize hall : nodes ++ [.subtree line tokens children] = all at h
  cases h with
  | flat last =>
    subst hall
    exact absurd trivial (last (.subtree line tokens children) (by simp))
  | deep inner =>
    obtain ⟨rfl, hlast⟩ := List.append_inj' hall rfl
    simp only [List.cons.injEq, Node.subtree.injEq, and_true] at hlast
    obtain ⟨rfl, rfl, rfl⟩ := hlast
    exact ⟨_, rfl, inner⟩

/-! ### Refusals -/

/-- A forest below a parent of the given width refuses a line, which is at fault at the offset. -/
inductive Refuses (line : Line) : Int → List Node → Fault → Nat → Prop
  | misaligned {parent : Int} {nodes : List Node} {sibling : Line} {tokens : Int}
      {children : List Node} (wider : parent < line.width)
      (mem : .subtree sibling tokens children ∈ nodes) (ne : sibling.width ≠ line.width)
      (last : ∀ (l : Line) (t : Int) (c : List Node),
        .subtree l t c ∈ nodes.getLast? → line.width ≤ l.width) :
      Refuses line parent nodes .inconsistentIndentation line.width
  | mismatched {parent : Int} {nodes : List Node} {e : Group.Mismatch}
      (fits : line.Fits parent nodes) (count : Token.count line.content = .error e) :
      Refuses line parent nodes .mismatchedParentheses (line.width + e.offset)
  | deeper {parent : Int} {nodes : List Node} {last : Line} {tokens : Int} {children : List Node}
      {fault : Fault} {offset : Nat} (refuses : Refuses line last.width children fault offset) :
      Refuses line parent (nodes ++ [.subtree last tokens children]) fault offset

/-- A line is no child of the last of the nodes and does not continue it either. -/
def Line.Passes (line : Line) (nodes : List Node) : Prop :=
  ∀ (l : Line) (t : Int) (c : List Node), .subtree l t c ∈ nodes.getLast? →
    line.width ≤ l.width ∧ line.continues l.width = false

theorem Line.passes_concat_subtree {line last : Line} {nodes children : List Node} {tokens : Int} :
    line.Passes (nodes ++ [.subtree last tokens children]) ↔
      line.width ≤ last.width ∧ line.continues last.width = false := by
  constructor
  · intro h
    exact h last tokens children (by simp)
  · intro h l t c hl
    simp only [List.getLast?_concat, Option.mem_def, Option.some.injEq, Node.subtree.injEq] at hl
    obtain ⟨rfl, rfl, rfl⟩ := hl
    exact h

theorem Line.passes_of_last {line : Line} {nodes : List Node}
    (h : ∀ node ∈ nodes.getLast?, ¬ node.IsSubtree) : line.Passes nodes :=
  fun l t c hl => absurd trivial (h (.subtree l t c) hl)

theorem Line.continues_eq_false_iff {line : Line} {parent : Int} :
    line.continues parent = false ↔ (line.width = parent → ¬ line.HasPipe) := by
  rw [← Bool.not_eq_true, Line.continues_iff, not_and]

/-- A line that passes the last of the nodes belongs to their parent, or it is refused, or it is
outside. -/
theorem Line.Passes.grows_or_refuses_or {nodes : List Node} {line : Line}
    (h : line.Passes nodes) (mark : Option Char) (parent : Int) :
    (∃ nodes', Grows mark line parent nodes nodes') ∨
      (∃ fault offset, Refuses line parent nodes fault offset) ∨
        line.width ≤ parent ∧ line.continues parent = false := by
  by_cases hwider : parent < line.width
  · by_cases haligned : ∀ (l : Line) (t : Int) (c : List Node),
        .subtree l t c ∈ nodes → l.width = line.width
    · have hfits : line.Fits parent nodes := by
        refine ⟨hwider, haligned, fun node hnode hsub => ?_⟩
        cases node with
        | continuation text number => exact hsub.elim
        | subtree l t c =>
          have hwidth := haligned l t c (List.mem_of_mem_getLast? hnode)
          exact Line.continues_eq_false_iff.mp (h l t c hnode).2 (by rw [hwidth])
      cases hcount : Token.count line.content with
      | ok tokens => exact .inl ⟨_, .child hfits hcount⟩
      | error e => exact .inr (.inl ⟨_, _, .mismatched hfits hcount⟩)
    · simp only [not_forall] at haligned
      obtain ⟨l, t, c, hmem, hne⟩ := haligned
      exact .inr (.inl ⟨_, _, .misaligned hwider hmem hne fun l t c hl => (h l t c hl).1⟩)
  · cases hcontinues : line.continues parent with
    | true => exact .inl ⟨_, .continuation hcontinues⟩
    | false => exact .inr (.inr ⟨Int.not_lt.mp hwider, rfl⟩)

/-- A line makes a forest in order grow, or it is refused, or it is outside of the forest. -/
theorem Nested.grows_or_refuses_or {lines : List Text} {parent : Int} {nodes : List Node}
    (h : Nested lines parent nodes) (mark : Option Char) (line : Line) :
    (∃ nodes', Grows mark line parent nodes nodes') ∨
      (∃ fault offset, Refuses line parent nodes fault offset) ∨
        line.width ≤ parent ∧ line.continues parent = false := by
  induction h with
  | @intro parent nodes siblings below ih =>
    rcases List.eq_nil_or_concat' nodes with rfl | ⟨front, node, rfl⟩
    · exact (Line.passes_of_last (by simp)).grows_or_refuses_or mark parent
    · cases node with
      | continuation text number =>
        have hlast : line.Passes (front ++ [.continuation text number]) :=
          Line.passes_of_last (by simp [Node.IsSubtree])
        exact hlast.grows_or_refuses_or mark parent
      | subtree last tokens children =>
        -- the last line has the first say
        rcases ih last tokens children (by simp) with ⟨_, hgrows⟩ | ⟨_, _, hrefuses⟩ | houter
        · exact .inl ⟨_, .deeper hgrows⟩
        · exact .inr (.inl ⟨_, _, .deeper hrefuses⟩)
        · have hpasses : line.Passes (front ++ [.subtree last tokens children]) :=
            Line.passes_concat_subtree.mpr ⟨Int.ofNat_le.mp houter.1, houter.2⟩
          exact hpasses.grows_or_refuses_or mark parent

/-- At the root of a file, a line makes the forest grow, or it is refused. -/
theorem Nested.grows_or_refuses {lines : List Text} {roots : List Node}
    (h : Nested lines Reader.rootWidth roots) (mark : Option Char) (line : Line) :
    (∃ roots', Grows mark line Reader.rootWidth roots roots') ∨
      ∃ fault offset, Refuses line Reader.rootWidth roots fault offset := by
  rcases h.grows_or_refuses_or mark line with hgrows | hrefuses | ⟨houter, -⟩
  · exact .inl hgrows
  · exact .inr hrefuses
  · rw [Reader.rootWidth] at houter
    omega

/-! ### The reader agrees -/

/-- In a forest in order, no open line is narrower than the last of the nodes. -/
theorem Nested.exists_last_le {lines : List Text} {parent : Int} {nodes : List Node}
    {entry : Line × List Node} (h : Nested lines parent nodes)
    (hentry : entry ∈ Node.lastOpenLines nodes) :
    ∃ (l : Line) (t : Int) (c : List Node),
      .subtree l t c ∈ nodes.getLast? ∧ l.width ≤ entry.1.width := by
  rcases List.eq_nil_or_concat' nodes with rfl | ⟨front, node, rfl⟩
  · simp [Node.lastOpenLines] at hentry
  · rw [Node.lastOpenLines_concat] at hentry
    cases node with
    | continuation text number => simp [Node.openLines] at hentry
    | subtree last tokens children =>
      refine ⟨last, tokens, children, by simp, ?_⟩
      rw [Node.openLines, List.mem_cons] at hentry
      rcases hentry with rfl | hentry
      · exact Nat.le_refl _
      · have hinner := h.last.lt_of_mem_lastOpenLines entry hentry
        omega

/-- In a forest in order, a line that passes the last of the nodes passes all open lines. -/
theorem Nested.passes_all {lines : List Text} {parent : Int} {nodes : List Node} {line : Line}
    (h : Nested lines parent nodes) (hpasses : line.Passes nodes) :
    ∀ entry ∈ Node.lastOpenLines nodes,
      line.width ≤ entry.1.width ∧ line.continues entry.1.width = false := by
  intro entry hentry
  obtain ⟨l, t, c, hl, hle⟩ := h.exists_last_le hentry
  obtain ⟨hwidth, hcontinues⟩ := hpasses l t c hl
  refine ⟨by omega, Line.continues_eq_false_iff.mpr fun heq => ?_⟩
  exact Line.continues_eq_false_iff.mp hcontinues (by omega)

/-- The reader closes the lines that a line passes. -/
theorem Opens.place_eq {parent : Int} {nodes : List Node} {above stack : List OpenLine}
    {level : Level} {line : Line} (h : Opens parent nodes above level stack) (mark : Option Char)
    (hpasses : ∀ entry ∈ Node.lastOpenLines nodes,
      line.width ≤ entry.1.width ∧ line.continues entry.1.width = false) :
    level.place mark line stack = (Level.ofNodes parent nodes).place mark line above := by
  induction h with
  | flat last => rfl
  | @deep parent nodes last tokens children above stack level inner ih =>
    rw [Node.lastOpenLines_concat, Node.openLines, List.forall_mem_cons] at hpasses
    obtain ⟨⟨hwidth, hcontinues⟩, hpasses⟩ := hpasses
    have hnot : ¬ (last.width : Int) < line.width := by
      simp only at hwidth
      omega
    rw [ih hpasses, Level.place, ← OpenLine.close_after]
    simp [Level.ofNodes, hnot, hcontinues]

theorem Level.ofNodes_add (parent : Int) (nodes : List Node) (text : Text) (number : Int) :
    (Level.ofNodes parent nodes).add (.continuation text number) =
      .ofNodes parent (nodes ++ [.continuation text number]) := by
  simp [Level.ofNodes, Level.add, List.findSome?_cons, Node.width?]

/-- The width that the child lines of a level have to have is that of one of them. -/
theorem Level.ofNodes_childWidth_eq_some {parent : Int} {nodes : List Node} {width : Nat}
    (h : (Level.ofNodes parent nodes).childWidth = some width) :
    ∃ (line : Line) (tokens : Int) (children : List Node),
      .subtree line tokens children ∈ nodes ∧ line.width = width := by
  obtain ⟨node, hmem, hwidth⟩ := List.exists_of_findSome?_eq_some h
  cases node with
  | continuation text number => simp [Node.width?] at hwidth
  | subtree line tokens children =>
    exact ⟨line, tokens, children, by simpa using hmem, by simpa [Node.width?] using hwidth⟩

theorem Level.ofNodes_childWidth_isSome (parent : Int) {nodes : List Node} {line : Line}
    {tokens : Int} {children : List Node} (h : .subtree line tokens children ∈ nodes) :
    (Level.ofNodes parent nodes).childWidth.isSome := by
  simp only [Level.ofNodes, List.isSome_findSome?, List.any_eq_true]
  exact ⟨_, List.mem_reverse.mpr h, rfl⟩

/-- A line that fits becomes an open line. -/
theorem Line.Fits.nest_eq {line : Line} {parent : Int} {nodes : List Node}
    (h : line.Fits parent nodes) (above : List OpenLine) :
    (Level.ofNodes parent nodes).nest above line =
      match Token.count line.content with
      | .ok tokens => .placed (.under line.width) (.after parent nodes line tokens :: above)
      | .error e => .refused .mismatchedParentheses (line.width + e.offset) := by
  have hall : (Level.ofNodes parent nodes).childWidth.all (· == line.width) = true := by
    cases hwidth : (Level.ofNodes parent nodes).childWidth with
    | none => rfl
    | some width =>
      obtain ⟨l, t, c, hmem, rfl⟩ := Level.ofNodes_childWidth_eq_some hwidth
      simp [h.aligned l t c hmem]
  rw [Level.nest, if_pos hall]
  rfl

theorem Line.Fits.passes {line : Line} {parent : Int} {nodes : List Node}
    (h : line.Fits parent nodes) : line.Passes nodes := by
  intro l t c hl
  have hwidth := h.aligned l t c (List.mem_of_mem_getLast? hl)
  refine ⟨by omega, Line.continues_eq_false_iff.mpr fun _ => ?_⟩
  exact h.apart (.subtree l t c) hl trivial

theorem Level.place_of_lt {level : Level} {line : Line} (h : level.parent < line.width)
    (mark : Option Char) (above : List OpenLine) :
    level.place mark line above = level.nest above line := by
  rw [Level.place.eq_def]
  exact if_pos h

theorem Level.place_of_continues {level : Level} {line : Line}
    (h : line.continues level.parent = true) (mark : Option Char) (above : List OpenLine) :
    level.place mark line above = .placed (level.add (line.continuation mark)) above := by
  have hnot : ¬ level.parent < line.width := by
    have hwidth := (Line.continues_iff.mp h).1
    omega
  rw [Level.place.eq_def]
  exact (if_neg hnot).trans (if_pos h)

/-- A line narrower than the last of the nodes passes it. -/
theorem Line.passes_of_lt {line : Line} {nodes : List Node}
    (h : ∀ (l : Line) (t : Int) (c : List Node),
      .subtree l t c ∈ nodes.getLast? → line.width < l.width) : line.Passes nodes := by
  intro l t c hl
  have hlt := h l t c hl
  exact ⟨by omega, Line.continues_eq_false_iff.mpr fun heq => by omega⟩

/-- Next to siblings of another width, a line that is not wider than the last is narrower. -/
theorem Siblings.lt_of_misaligned {lines : List Text} {parent : Int} {nodes : List Node}
    {line sibling : Line} {tokens : Int} {children : List Node} (h : Siblings lines parent nodes)
    (mem : .subtree sibling tokens children ∈ nodes) (ne : sibling.width ≠ line.width)
    (last : ∀ (l : Line) (t : Int) (c : List Node),
      .subtree l t c ∈ nodes.getLast? → line.width ≤ l.width) :
    ∀ (l : Line) (t : Int) (c : List Node),
      .subtree l t c ∈ nodes.getLast? → line.width < l.width := by
  obtain ⟨width, -, haligned⟩ := h.aligned
  intro l t c hl
  have hle := last l t c hl
  have hl := haligned l t c (List.mem_of_mem_getLast? hl)
  have hsibling := haligned sibling tokens children mem
  omega

/-- A line that makes the forest grow is placed, and the reader has the grown forest open. -/
theorem Opens.place_of_grows {lines : List Text} {mark : Option Char} {line : Line}
    {parent : Int} {nodes nodes' : List Node} {above stack : List OpenLine} {level : Level}
    (h : Opens parent nodes above level stack) (hnested : Nested lines parent nodes)
    (hgrows : Grows mark line parent nodes nodes') :
    ∃ level' stack', level.place mark line stack = .placed level' stack' ∧
      Opens parent nodes' above level' stack' := by
  induction hgrows generalizing above with
  | @child parent nodes tokens fits count =>
    refine ⟨_, _, ?_, .deep (.nil _ _)⟩
    rw [h.place_eq mark (hnested.passes_all fits.passes), Level.place_of_lt (by exact fits.wider),
      fits.nest_eq, count]
  | @continuation parent nodes continues =>
    -- the child lines are wider than the parent, so a line as wide as the parent passes them
    have hpasses : line.Passes nodes := by
      obtain ⟨width, hwidth, haligned⟩ := hnested.siblings.aligned
      have hline := (Line.continues_iff.mp continues).1
      refine Line.passes_of_lt fun l t c hl => ?_
      have hl := haligned l t c (List.mem_of_mem_getLast? hl)
      omega
    refine ⟨_, _, ?_, .flat (by simp [Line.continuation, Node.IsSubtree])⟩
    rw [h.place_eq mark (hnested.passes_all hpasses), Level.place_of_continues (by exact continues),
      Line.continuation, Level.ofNodes_add]
  | deeper grows ih =>
    obtain ⟨n, rfl, inner⟩ := h.inner_of_concat
    obtain ⟨level', stack', hplace, hopens⟩ := ih inner hnested.last
    exact ⟨level', stack', hplace, .deep hopens⟩

/-- A line that the forest refuses is refused by the reader, with the same fault. -/
theorem Opens.place_of_refuses {lines : List Text} {mark : Option Char} {line : Line}
    {parent : Int} {nodes : List Node} {above stack : List OpenLine} {level : Level}
    {fault : Fault} {offset : Nat} (h : Opens parent nodes above level stack)
    (hnested : Nested lines parent nodes) (hrefuses : Refuses line parent nodes fault offset) :
    level.place mark line stack = .refused fault offset := by
  induction hrefuses generalizing above with
  | @misaligned parent nodes sibling tokens children wider mem ne last =>
    have hpasses := Line.passes_of_lt (hnested.siblings.lt_of_misaligned mem ne last)
    obtain ⟨width, -, haligned⟩ := hnested.siblings.aligned
    obtain ⟨w, hw⟩ := Option.isSome_iff_exists.mp (Level.ofNodes_childWidth_isSome parent mem)
    obtain ⟨l, t, c, hl, rfl⟩ := Level.ofNodes_childWidth_eq_some hw
    have hne : l.width ≠ line.width := by
      rw [haligned l t c hl, ← haligned sibling tokens children mem]
      exact ne
    rw [h.place_eq mark (hnested.passes_all hpasses), Level.place_of_lt (by exact wider),
      Level.nest, hw, Option.all_some, if_neg (by simpa using hne)]
  | mismatched fits count =>
    rw [h.place_eq mark (hnested.passes_all fits.passes), Level.place_of_lt (by exact fits.wider),
      fits.nest_eq, count]
  | deeper refuses ih =>
    obtain ⟨n, rfl, inner⟩ := h.inner_of_concat
    exact ih inner hnested.last

end Offside
