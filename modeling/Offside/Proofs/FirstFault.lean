import Offside.Proofs.Reading

/-!
# The first fault of a file

A diagnostic is about the first line at fault: the lines before it have an outline, and the
lines after it do not matter. On that line the faults have an order. Foreign indentation comes
first. Then the width has to have a place among the open nodes of the outline read so far.
Parentheses are looked at last, and not at all in a continuation.

The place of a width is read off the chain of open nodes (`openNodes`), and `IsMisfit` says that
there is none. `Refuses` goes down the same chain, so the two are compared by induction on it.
-/

namespace Offside

/-! ### Widths without a place -/

/-- The open nodes of a forest below a parent of the given width, each by its width and its
children: the parent itself, and the lines reached from it by always going to the last child
while that is a line. The innermost is the last. -/
def openNodes (parent : Int) (nodes : List Node) : List (Int × List Node) :=
  (parent, nodes) :: (Node.lastOpenLines nodes).map fun entry => ((entry.1.width : Int), entry.2)

/-- The innermost open node that is narrower than the line. -/
def innermostNarrower (parent : Int) (nodes : List Node) (line : Line) : Option (Int × List Node) :=
  ((openNodes parent nodes).filter
    fun (entry : Int × List Node) => decide (entry.1 < line.width)).getLast?

/-- The width of the line has no place among the open nodes: none of them has it, and the
innermost narrower one has child lines already, of another width. -/
def IsMisfit (parent : Int) (nodes : List Node) (line : Line) : Prop :=
  (∀ entry ∈ openNodes parent nodes, entry.1 ≠ line.width) ∧
    ∃ entry ∈ innermostNarrower parent nodes line,
      ∃ (sibling : Line) (tokens : Int) (children : List Node),
        .subtree sibling tokens children ∈ entry.2 ∧ sibling.width ≠ line.width

theorem openNodes_concat (parent : Int) (nodes : List Node) (last : Line) (tokens : Int)
    (children : List Node) :
    openNodes parent (nodes ++ [.subtree last tokens children]) =
      (parent, nodes ++ [.subtree last tokens children]) :: openNodes last.width children := by
  rw [openNodes, Node.lastOpenLines_concat, Node.openLines, List.map_cons, openNodes]

/-- A line that passes every open line below a narrower parent has the parent as its innermost
narrower node. -/
theorem innermostNarrower_of_passes {parent : Int} {nodes : List Node} {line : Line}
    (hwider : parent < line.width)
    (h : ∀ entry ∈ Node.lastOpenLines nodes, line.width ≤ entry.1.width) :
    innermostNarrower parent nodes line = some (parent, nodes) := by
  have hnil : ((Node.lastOpenLines nodes).map fun entry => ((entry.1.width : Int), entry.2)).filter
      (fun entry : Int × List Node => decide (entry.1 < line.width)) = [] := by
    simp only [List.filter_eq_nil_iff, List.mem_map]
    rintro _ ⟨entry, hentry, rfl⟩
    have := h entry hentry
    simp only [decide_eq_true_eq]
    omega
  rw [innermostNarrower, openNodes, List.filter_cons_of_pos (by simpa using hwider), hnil]
  rfl

/-- A line wider than the last of the nodes looks for its place below it. -/
theorem innermostNarrower_concat {parent : Int} {nodes : List Node} {last line : Line}
    {tokens : Int} {children : List Node} (hparent : parent < last.width)
    (hlast : last.width < line.width) :
    innermostNarrower parent (nodes ++ [.subtree last tokens children]) line =
      innermostNarrower last.width children line := by
  have hwider : parent < line.width := by omega
  rw [innermostNarrower, openNodes_concat, List.filter_cons_of_pos (by simpa using hwider),
    innermostNarrower, openNodes, List.filter_cons_of_pos (by simpa using hlast),
    List.getLast?_cons_cons]

theorem isMisfit_concat_iff {parent : Int} {nodes : List Node} {last line : Line}
    {tokens : Int} {children : List Node} (hparent : parent < last.width)
    (hlast : last.width < line.width) :
    IsMisfit parent (nodes ++ [.subtree last tokens children]) line ↔
      IsMisfit last.width children line := by
  have hne : parent ≠ line.width := by omega
  rw [IsMisfit, innermostNarrower_concat hparent hlast, openNodes_concat, List.forall_mem_cons,
    IsMisfit]
  simp only [ne_eq, hne, not_false_eq_true, true_and]

/-! ### What a refusal is about -/

theorem Refuses.lt_width {lines : List Text} {line : Line} {parent : Int} {nodes : List Node}
    {fault : Fault} {offset : Nat} (h : Refuses line parent nodes fault offset)
    (hnested : Nested lines parent nodes) : parent < line.width := by
  induction h with
  | misaligned wider => exact wider
  | mismatched fits => exact fits.wider
  | deeper refuses ih =>
    have hlast := (siblings_concat_subtree.mp hnested.siblings).2.2.wider
    exact Int.lt_trans hlast (ih hnested.last)

/-- A line is refused for its indentation exactly when its width has no place. -/
theorem Refuses.fault_eq_inconsistentIndentation_iff {lines : List Text} {line : Line}
    {parent : Int} {nodes : List Node} {fault : Fault} {offset : Nat}
    (h : Refuses line parent nodes fault offset) (hnested : Nested lines parent nodes) :
    fault = .inconsistentIndentation ↔ IsMisfit parent nodes line := by
  induction h with
  | @misaligned parent nodes sibling tokens children wider mem ne last =>
    -- the open lines are all wider, so the parent is the innermost narrower node
    have hlt := hnested.siblings.lt_of_misaligned mem ne last
    have hopen : ∀ entry ∈ Node.lastOpenLines nodes, line.width < entry.1.width := by
      intro entry hentry
      obtain ⟨l, t, c, hl, hle⟩ := hnested.exists_last_le hentry
      have := hlt l t c hl
      omega
    refine iff_of_true rfl ⟨?_, (parent, nodes), ?_, sibling, tokens, children, mem, ne⟩
    · intro entry hentry
      rw [openNodes, List.mem_cons, List.mem_map] at hentry
      rcases hentry with rfl | ⟨entry, hentry, rfl⟩
      · exact Int.ne_of_lt wider
      · have := hopen entry hentry
        simp only
        omega
    · rw [innermostNarrower_of_passes wider fun entry hentry => Nat.le_of_lt (hopen entry hentry)]
      rfl
  | @mismatched parent nodes e fits count =>
    refine iff_of_false (by simp) ?_
    rintro ⟨-, entry, hentry, sibling, tokens, children, hmem, hne⟩
    have hpasses := hnested.passes_all fits.passes
    rw [innermostNarrower_of_passes fits.wider fun entry he => (hpasses entry he).1] at hentry
    obtain rfl := Option.mem_some.mp hentry
    exact hne (fits.aligned sibling tokens children hmem)
  | deeper refuses ih =>
    have hparent := (siblings_concat_subtree.mp hnested.siblings).2.2.wider
    have hlast := Int.ofNat_lt.mp (refuses.lt_width hnested.last)
    rw [isMisfit_concat_iff hparent hlast]
    exact ih hnested.last

/-- A line refused for its parentheses continues no open node, and its tokens cannot be
counted. -/
theorem Refuses.not_continues_and_count_eq_error {lines : List Text} {line : Line} {parent : Int}
    {nodes : List Node} {fault : Fault} {offset : Nat} (h : Refuses line parent nodes fault offset)
    (hnested : Nested lines parent nodes) (hfault : fault ≠ .inconsistentIndentation) :
    (∀ entry ∈ openNodes parent nodes, line.continues entry.1 = false) ∧
      ∃ e, Token.count line.content = .error e := by
  have hlt := h.lt_width hnested
  have hparent : line.continues parent = false :=
    Line.continues_eq_false_iff.mpr fun heq => by omega
  induction h with
  | misaligned => exact absurd rfl hfault
  | @mismatched parent nodes e fits count =>
    refine ⟨fun entry hentry => ?_, e, count⟩
    rw [openNodes, List.mem_cons, List.mem_map] at hentry
    rcases hentry with rfl | ⟨entry, hentry, rfl⟩
    · exact hparent
    · exact (hnested.passes_all fits.passes entry hentry).2
  | deeper refuses ih =>
    have hlast := refuses.lt_width hnested.last
    obtain ⟨hinner, hcount⟩ := ih hnested.last hfault hlast
      (Line.continues_eq_false_iff.mpr fun heq => by omega)
    rw [openNodes_concat, List.forall_mem_cons]
    exact ⟨⟨hparent, hinner⟩, hcount⟩

theorem Refuses.fault_ne_mixedIndentation {line : Line} {parent : Int} {nodes : List Node}
    {fault : Fault} {offset : Nat} (h : Refuses line parent nodes fault offset) :
    fault ≠ .mixedIndentation := by
  induction h with
  | misaligned => simp
  | mismatched => simp
  | deeper refuses ih => exact ih

/-! ### The first fault -/

/-- Some indentation character of the line is not the first one of the lines. -/
def HasForeignIndent (lines : List Text) (line : Line) : Prop :=
  ∃ c ∈ line.indent, firstMark lines ≠ some c

/-- A diagnostic is about the first line at fault, the one behind `before` lines, of which `doc` is
the outline. -/
structure IsFirstFault (lines : List Text) (filename : Text) (e : Diagnostic) (before : Nat)
    (line : Line) (doc : Document) : Prop where
  /-- The line is the one that the diagnostic names, and it is not skipped. -/
  line_eq : e.line = before + 1 ∧ lines[before]? = some line.text ∧ line.index = before ∧
    line.skipped = false
  /-- The lines before it are read. -/
  read_before : Document.read (lines.take before) filename = .ok doc
  /-- Whatever comes after it, the diagnostic is the same. -/
  read_after : ∀ rest, Document.read (lines.take (before + 1) ++ rest) filename = .error e
  mixed : e.fault = .mixedIndentation ↔ HasForeignIndent (lines.take (before + 1)) line
  inconsistent : ¬ HasForeignIndent (lines.take (before + 1)) line →
    (e.fault = .inconsistentIndentation ↔ IsMisfit Reader.rootWidth doc.roots line)
  /-- Parentheses come last, and those of a continuation do not matter. -/
  mismatched : ¬ HasForeignIndent (lines.take (before + 1)) line →
    ¬ IsMisfit Reader.rootWidth doc.roots line →
    e.fault = .mismatchedParentheses ∧
      (∀ entry ∈ openNodes Reader.rootWidth doc.roots, line.continues entry.1 = false) ∧
      ∃ m, Token.count line.content = .error m

theorem hasForeignIndent_concat_iff {lines : List Text} {text : Text}
    (h : (⟨text, lines.length⟩ : Line).skipped = false) :
    HasForeignIndent (lines ++ [text]) ⟨text, lines.length⟩ ↔
      Indentation.foreign? (firstMark lines) (⟨text, lines.length⟩ : Line).indent ≠ none := by
  rw [ne_eq, Indentation.foreign?_eq_none_iff, ← firstMark_concat_of_not_skipped h,
    HasForeignIndent]
  simp only [not_forall, ne_eq, exists_prop]

/-- **The reported fault is the first one**: the lines before it have an outline, nothing after it
matters, and on its line mixed indentation comes before a width without a place, and that before
mismatched parentheses. -/
theorem read_error_isFirstFault {lines : List Text} {filename : Text} {e : Diagnostic}
    (h : Document.read lines filename = .error e) :
    ∃ before line doc, IsFirstFault lines filename e before line doc := by
  rcases exists_isOutline_or_faultAt lines with
    ⟨roots, hroots⟩ | ⟨front, text, rest, rfl, hs, roots, hroots, fault, offset, hfault⟩
  · rw [read_of_isOutline hroots] at h
    exact absurd h (by simp)
  have hread := read_of_faultAt hroots hs hfault
  rw [hread] at h
  obtain rfl := Except.error.inj h
  -- the line at fault is `text`, and the cuts of the file at it are `front` and `front ++ [text]`
  have hbefore : (front ++ text :: rest).take front.length = front := by simp
  have hupto : (front ++ text :: rest).take (front.length + 1) = front ++ [text] := by
    rw [List.take_append, List.take_of_length_le (by omega)]
    simp
  have htext : (front ++ text :: rest)[front.length]? = some text := by simp
  refine ⟨front.length, ⟨text, front.length⟩, ⟨roots, filename⟩, ⟨rfl, htext, rfl, hs⟩, ?_, ?_,
    ?_, ?_, ?_⟩
  · rw [hbefore]
    exact read_of_isOutline hroots filename
  · intro ext
    rw [hupto, List.append_assoc]
    exact hread ext filename
  all_goals rw [hupto, hasForeignIndent_concat_iff hs]
  · cases hfault with
    | mixed foreign => simp [Line.diagnose, foreign]
    | refused native refuses =>
      exact iff_of_false refuses.fault_ne_mixedIndentation (by simp [native])
  · intro hnative
    cases hfault with
    | mixed foreign => simp [foreign] at hnative
    | refused native refuses => exact refuses.fault_eq_inconsistentIndentation_iff hroots.nested
  · intro hnative hplace
    cases hfault with
    | mixed foreign => simp [foreign] at hnative
    | refused native refuses =>
      have hne : fault ≠ .inconsistentIndentation :=
        fun heq => hplace ((refuses.fault_eq_inconsistentIndentation_iff hroots.nested).mp heq)
      refine ⟨?_, refuses.not_continues_and_count_eq_error hroots.nested hne⟩
      have hmixed := refuses.fault_ne_mixedIndentation
      cases fault <;> simp_all [Line.diagnose]

/-- A line that closes a level without a place for it. The line after it would be at fault as
well. -/
theorem read_error_isFirstFault_dedent :
    ∃ before line doc, IsFirstFault (["a", "    b (c)", "  d", "e)"].map String.toList) ['f']
      ⟨.inconsistentIndentation, ['f'], 3, 3, "  d".toList⟩ before line doc := by
  apply read_error_isFirstFault
  simp only [List.map_cons, List.map_nil, String.reduceToList]
  rfl

end Offside
