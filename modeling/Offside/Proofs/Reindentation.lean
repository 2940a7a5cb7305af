import Offside.Proofs.Likeness
import Offside.Proofs.Signal

/-!
# Only the order of widths matters

A file with one indentation character can be indented anew: each width `w` becomes `f w` for a
strictly increasing `f`, and each line is indented with another character. Both files have an
outline or neither has (`read_reindent`). The outlines are alike, with the same numbers, contents
and tokens at corresponding nodes, and the faults are of one kind and on one line.

Indenting anew keeps the contents of lines and the order of their widths, so the step lemmas for
forests that are alike apply to every line. The two runs are followed line by line, up to the end
(`IsOutline.exists_reindent`) or up to the first fault (`FaultAt.exists_reindent`).
-/

namespace Offside

/-! ### What depends on the content alone -/

namespace Line

theorem stripLeft_text (line : Line) : Text.stripLeft line.text = Text.stripLeft line.content := by
  rw [← line.indent_append_content, line.stripLeft_append_indent]

theorem isBlank_eq (line : Line) : line.isBlank = (Text.stripLeft line.content).isEmpty := by
  rw [← line.stripLeft_text, Line.isBlank, Bool.eq_iff_iff, List.all_eq_true, List.isEmpty_iff,
    Text.stripLeft, List.dropWhile_eq_nil_iff]

theorem skipped_congr {line line' : Line} (h : line'.content = line.content) :
    line'.skipped = line.skipped := by
  rw [Line.skipped, Line.skipped, isBlank_eq, isBlank_eq, Line.isComment, Line.isComment,
    stripLeft_text, stripLeft_text, h]

theorem isHeader_congr {line line' : Line} (h : line'.content = line.content) :
    isHeader line'.text = isHeader line.text := by
  rw [isHeader, isHeader, Text.strip, Text.strip, stripLeft_text, stripLeft_text, h]

end Line

/-! ### Indenting anew -/

/-- A line is another line, indented anew. -/
structure Line.Reindented (f : Nat → Nat) (line line' : Line) : Prop where
  number_eq : line'.number = line.number
  content_eq : line'.content = line.content
  header_eq : isHeader line'.text = isHeader line.text
  width_eq : line'.width = f line.width

/-- Two continuations come from one line, which is indented anew for the second. -/
def Node.Recontinued (f : Nat → Nat) (node node' : Node) : Prop :=
  ∃ (line line' : Line) (mark mark' : Option Char), line.Reindented f line' ∧
    node = line.continuation mark ∧ node' = line'.continuation mark'

/-- The text of a line, with an indentation of width `w` replaced by `f w` marks. Lines that have no
place in an outline are left alone. -/
def reindentText (f : Nat → Nat) (mark : Char) (text : Text) : Text :=
  let line : Line := ⟨text, 0⟩
  if line.skipped then text else List.replicate (f line.width) mark ++ line.content

/-- The lines of a file, indented anew. -/
def reindent (f : Nat → Nat) (mark : Char) (lines : List Text) : List Text :=
  lines.map (reindentText f mark)

theorem keepsOrder_reindented {f : Nat → Nat} (hf : StrictMono f) :
    KeepsOrder f (Line.Reindented f) where
  strictMono := hf
  width_eq h := h.width_eq
  content_eq h := h.content_eq

theorem recontinued_continuation {f : Nat → Nat} {line line' : Line} (h : line.Reindented f line')
    (mark mark' : Option Char) :
    Node.Recontinued f (line.continuation mark) (line'.continuation mark') :=
  ⟨line, line', mark, mark', h, rfl, rfl⟩

section Reindent

variable {f : Nat → Nat} {mark : Char} {lines : List Text} {text : Text}

@[simp]
theorem length_reindent : (reindent f mark lines).length = lines.length :=
  List.length_map ..

theorem reindent_concat :
    reindent f mark (lines ++ [text]) = reindent f mark lines ++ [reindentText f mark text] :=
  List.map_append

theorem reindentText_of_skipped {index : Int} (h : (⟨text, index⟩ : Line).skipped = true) :
    reindentText f mark text = text :=
  if_pos h

/-- The indentation and the content of a line that is put together from the two. -/
theorem Line.indent_eq_and_content_eq {indent body : Text} {index : Int}
    (hindent : ∀ c ∈ indent, Line.isIndent c = true)
    (hbody : ∀ c ∈ body.head?, Line.isIndent c = false) :
    (⟨indent ++ body, index⟩ : Line).indent = indent ∧
      (⟨indent ++ body, index⟩ : Line).content = body := by
  have htake : body.takeWhile Line.isIndent = [] ∧ body.dropWhile Line.isIndent = body := by
    cases body with
    | nil => exact ⟨rfl, rfl⟩
    | cons c body =>
      have hc : ¬ Line.isIndent c = true := by simp [hbody c rfl]
      exact ⟨List.takeWhile_cons_of_neg hc, List.dropWhile_cons_of_neg hc⟩
  rw [Line.indent, Line.content, List.takeWhile_append_of_pos hindent,
    List.dropWhile_append_of_pos hindent, htake.1, htake.2, List.append_nil]
  exact ⟨rfl, rfl⟩

variable (hmark : Line.isIndent mark = true)

include hmark

theorem indent_reindentText {index : Int} (h : (⟨text, index⟩ : Line).skipped = false) :
    (⟨reindentText f mark text, index⟩ : Line).indent =
        List.replicate (f (⟨text, index⟩ : Line).width) mark ∧
      (⟨reindentText f mark text, index⟩ : Line).content = (⟨text, index⟩ : Line).content := by
  have htext : reindentText f mark text =
      List.replicate (f (⟨text, index⟩ : Line).width) mark ++ (⟨text, index⟩ : Line).content :=
    if_neg (Bool.eq_false_iff.mp h)
  rw [htext]
  refine Line.indent_eq_and_content_eq (fun c hc => ?_) (Signal.head?_content _)
  rw [List.eq_of_mem_replicate hc]
  exact hmark

theorem reindented_reindentText {index : Int} (h : (⟨text, index⟩ : Line).skipped = false) :
    (⟨text, index⟩ : Line).Reindented f ⟨reindentText f mark text, index⟩ := by
  obtain ⟨hindent, hcontent⟩ := indent_reindentText (f := f) hmark h
  refine ⟨rfl, hcontent, Line.isHeader_congr hcontent, ?_⟩
  rw [Line.width, hindent, List.length_replicate]

/-- Whether a line is skipped does not depend on its indentation. -/
theorem skipped_reindentText (index : Int) :
    (⟨reindentText f mark text, index⟩ : Line).skipped = (⟨text, index⟩ : Line).skipped := by
  cases h : (⟨text, index⟩ : Line).skipped with
  | true => rw [reindentText_of_skipped h, h]
  | false => rw [Line.skipped_congr (indent_reindentText hmark h).2, h]

/-- A file that is indented anew has one indentation character. -/
theorem eq_mark_of_mem_reindent (lines : List Text) :
    ∀ line ∈ outlineLines (reindent f mark lines), ∀ c ∈ line.indent, c = mark := by
  intro line hline c hc
  obtain ⟨hs, i, -, htext⟩ := mem_outlineLines.mp hline
  rw [reindent, List.getElem?_map, Option.map_eq_some_iff] at htext
  obtain ⟨text, -, htext⟩ := htext
  obtain ⟨text', index⟩ := line
  obtain rfl : reindentText f mark text = text' := htext
  rw [skipped_reindentText hmark] at hs
  rw [(indent_reindentText hmark hs).1] at hc
  exact List.eq_of_mem_replicate hc

theorem uniform_reindent_concat (lines : List Text) (text : Text) :
    ∃ mark' : Char, ∀ line ∈ outlineLines (reindent f mark lines ++ [reindentText f mark text]),
      ∀ c ∈ line.indent, c = mark' := by
  rw [← reindent_concat]
  exact ⟨mark, eq_mark_of_mem_reindent hmark (lines ++ [text])⟩

/-- The next line of a file, and what it is in the file indented anew. -/
theorem reindented_concat (h : (⟨text, lines.length⟩ : Line).skipped = false) :
    (⟨reindentText f mark text, (reindent f mark lines).length⟩ : Line).skipped = false ∧
      (⟨text, lines.length⟩ : Line).Reindented f
        ⟨reindentText f mark text, (reindent f mark lines).length⟩ := by
  rw [length_reindent, skipped_reindentText hmark]
  exact ⟨h, reindented_reindentText hmark h⟩

end Reindent

/-! ### Two runs -/

/-- In a file with one indentation character no indentation is foreign. -/
theorem foreign?_eq_none_of_uniform {lines : List Text} {text : Text}
    (hs : (⟨text, lines.length⟩ : Line).skipped = false)
    (h : ∃ mark : Char, ∀ line ∈ outlineLines (lines ++ [text]), ∀ c ∈ line.indent, c = mark) :
    Indentation.foreign? (firstMark lines) (⟨text, lines.length⟩ : Line).indent = none := by
  rw [Indentation.foreign?_eq_none_iff, ← firstMark_concat_of_not_skipped hs]
  exact uniform_iff.mp h _ (mem_outlineLines_concat_self hs)

section Runs

variable {f : Nat → Nat} (hf : StrictMono f) {mark : Char} (hmark : Line.isIndent mark = true)
  {lines : List Text} {roots : List Node}

include hf hmark

/-- A file that is indented anew has an outline if the file has one, and the two are alike. -/
theorem IsOutline.exists_reindent (h : IsOutline lines roots) :
    ∃ roots', IsOutline (reindent f mark lines) roots' ∧
      List.Forall₂ (Alike (Line.Reindented f) (Node.Recontinued f)) roots roots' := by
  induction lines using List.reverseRecOn generalizing roots with
  | nil =>
    obtain rfl := isOutline_nil_iff.mp h
    exact ⟨[], isOutline_nil_iff.mpr rfl, .nil⟩
  | append_singleton lines text ih =>
    rw [reindent_concat]
    cases hs : (⟨text, lines.length⟩ : Line).skipped with
    | true =>
      have hs' : (⟨reindentText f mark text, (reindent f mark lines).length⟩ : Line).skipped =
          true := by rw [length_reindent, skipped_reindentText hmark, hs]
      obtain ⟨roots', hroots', halike⟩ := ih ((isOutline_concat_of_skipped hs).mp h)
      exact ⟨roots', (isOutline_concat_of_skipped hs').mpr hroots', halike⟩
    | false =>
      obtain ⟨hs', hline⟩ := reindented_concat (f := f) hmark hs
      obtain ⟨-, before, hbefore, hgrows⟩ := (isOutline_concat_iff hs).mp h
      obtain ⟨before', hbefore', halike⟩ := ih hbefore
      -- the two files may have different marks, so continuations are compared by their lines
      have hcontinued := recontinued_continuation hline (firstMark (lines ++ [text]))
        (firstMark (reindent f mark lines ++ [reindentText f mark text]))
      obtain ⟨roots', hgrows', halike'⟩ :=
        hgrows.alike (keepsOrder_reindented hf) hline hcontinued .root halike
      refine ⟨roots', (isOutline_concat_iff hs').mpr ⟨?_, before', hbefore', hgrows'⟩, halike'⟩
      exact uniform_iff.mp (uniform_reindent_concat hmark lines text) _
        (mem_outlineLines_concat_self hs')

/-- Behind outlines that are alike, the next line is at fault in both files, for the same fault. -/
theorem FaultAt.exists_reindent {text : Text} {roots' : List Node} {fault : Fault} {offset : Nat}
    (h : FaultAt lines roots ⟨text, lines.length⟩ fault offset)
    (hs : (⟨text, lines.length⟩ : Line).skipped = false)
    (huniform : ∃ mark : Char, ∀ line ∈ outlineLines (lines ++ [text]), ∀ c ∈ line.indent, c = mark)
    (halike : List.Forall₂ (Alike (Line.Reindented f) (Node.Recontinued f)) roots roots') :
    ∃ offset', FaultAt (reindent f mark lines) roots'
      ⟨reindentText f mark text, (reindent f mark lines).length⟩ fault offset' := by
  obtain ⟨hs', hline⟩ := reindented_concat (f := f) hmark hs
  have huniform' := uniform_reindent_concat (f := f) hmark lines text
  cases h with
  | mixed foreign => simp [foreign?_eq_none_of_uniform hs huniform] at foreign
  | refused native refuses =>
    obtain ⟨inner, -, hrefuses⟩ := refuses.alike (keepsOrder_reindented hf) hline .root halike
    exact ⟨_, .refused (foreign?_eq_none_of_uniform hs' huniform') hrefuses⟩

/-- A file and the file indented anew have outlines that are alike, or the first fault of both is of
one kind and on one line. -/
theorem read_reindent_cases
    (huniform : ∃ mark : Char, ∀ line ∈ outlineLines lines, ∀ c ∈ line.indent, c = mark)
    (filename : Text) :
    (∃ doc doc', Document.read lines filename = .ok doc ∧
      Document.read (reindent f mark lines) filename = .ok doc' ∧
      List.Forall₂ (Alike (Line.Reindented f) (Node.Recontinued f)) doc.roots doc'.roots) ∨
    ∃ e e', Document.read lines filename = .error e ∧
      Document.read (reindent f mark lines) filename = .error e' ∧
      e'.fault = e.fault ∧ e'.line = e.line := by
  rcases exists_isOutline_or_faultAt lines with
    ⟨roots, hroots⟩ | ⟨front, text, rest, rfl, hs, roots, hroots, fault, offset, hfault⟩
  · obtain ⟨roots', hroots', halike⟩ := hroots.exists_reindent hf hmark
    exact .inl ⟨_, _, read_of_isOutline hroots filename, read_of_isOutline hroots' filename, halike⟩
  · obtain ⟨roots', hroots', halike⟩ := hroots.exists_reindent hf hmark
    have hfront : ∃ mark : Char, ∀ line ∈ outlineLines (front ++ [text]), ∀ c ∈ line.indent,
        c = mark := by
      obtain ⟨m, hm⟩ := huniform
      refine ⟨m, fun line hline => hm line ?_⟩
      rw [List.append_cons, outlineLines_append]
      exact List.mem_append_left _ hline
    obtain ⟨offset', hfault'⟩ := hfault.exists_reindent hf hmark hs hfront halike
    obtain ⟨hs', -⟩ := reindented_concat (f := f) hmark hs
    have hsplit : reindent f mark (front ++ text :: rest) =
        reindent f mark front ++ reindentText f mark text :: reindent f mark rest := by
      simp [reindent]
    have hread' := read_of_faultAt hroots' hs' hfault' (reindent f mark rest) filename
    rw [← hsplit] at hread'
    refine .inr ⟨_, _, read_of_faultAt hroots hs hfault rest filename, hread', rfl, ?_⟩
    simp only [Line.diagnose, Line.number, length_reindent]

end Runs

/-- **Only the order of widths matters.** A file with one indentation character has an outline
exactly when it has one with every width `w` made `f w` and with another indentation character. The
outlines are alike, and so are the faults. -/
theorem read_reindent {f : Nat → Nat} (hf : StrictMono f) {mark : Char}
    (hmark : Line.isIndent mark = true) {lines : List Text}
    (huniform : ∃ mark : Char, ∀ line ∈ outlineLines lines, ∀ c ∈ line.indent, c = mark)
    (filename : Text) :
    ((∃ doc, Document.read lines filename = .ok doc) ↔
      ∃ doc', Document.read (reindent f mark lines) filename = .ok doc') ∧
    (∀ doc doc', Document.read lines filename = .ok doc →
      Document.read (reindent f mark lines) filename = .ok doc' →
      List.Forall₂ (Alike (Line.Reindented f) (Node.Recontinued f)) doc.roots doc'.roots) ∧
    ∀ e e', Document.read lines filename = .error e →
      Document.read (reindent f mark lines) filename = .error e' →
      e'.fault = e.fault ∧ e'.line = e.line := by
  rcases read_reindent_cases hf hmark huniform filename with
    ⟨doc, doc', hread, hread', halike⟩ | ⟨e, e', hread, hread', hfault, hline⟩
  · refine ⟨iff_of_true ⟨doc, hread⟩ ⟨doc', hread'⟩, fun d d' hd hd' => ?_, fun e e' he => ?_⟩
    · obtain rfl := Except.ok.inj (hread.symm.trans hd)
      obtain rfl := Except.ok.inj (hread'.symm.trans hd')
      exact halike
    · exact absurd (hread.symm.trans he) (by simp)
  · refine ⟨iff_of_false ?_ ?_, fun d d' hd => ?_, fun d d' hd hd' => ?_⟩
    · rintro ⟨d, hd⟩
      exact absurd (hread.symm.trans hd) (by simp)
    · rintro ⟨d, hd⟩
      exact absurd (hread'.symm.trans hd) (by simp)
    · exact absurd (hread.symm.trans hd) (by simp)
    · obtain rfl := Except.error.inj (hread.symm.trans hd)
      obtain rfl := Except.error.inj (hread'.symm.trans hd')
      exact ⟨hfault, hline⟩

/-- A file in spaces, of which even the root is indented once it is in tabs. -/
theorem read_reindent_tabs :
    reindent (fun w => 2 * w + 1) '\t' ["a".toList, "  b".toList, " ; c".toList, "|d".toList] =
        ["\ta".toList, "\t\t\t\t\tb".toList, " ; c".toList, "\t|d".toList] ∧
      ∃ doc doc',
        Document.read ["a".toList, "  b".toList, " ; c".toList, "|d".toList] [] = .ok doc ∧
        Document.read
          ["\ta".toList, "\t\t\t\t\tb".toList, " ; c".toList, "\t|d".toList] [] = .ok doc' ∧
        List.Forall₂ (Alike (Line.Reindented fun w => 2 * w + 1)
          (Node.Recontinued fun w => 2 * w + 1)) doc.roots doc'.roots := by
  have hf : StrictMono fun w : Nat => 2 * w + 1 := fun a b h => by simpa using h
  have hlines : reindent (fun w => 2 * w + 1) '\t'
      ["a".toList, "  b".toList, " ; c".toList, "|d".toList] =
        ["\ta".toList, "\t\t\t\t\tb".toList, " ; c".toList, "\t|d".toList] := by decide +kernel
  obtain ⟨doc, hdoc⟩ : ∃ doc, Document.read
      ["a".toList, "  b".toList, " ; c".toList, "|d".toList] [] = .ok doc := by
    simp only [String.reduceToList]
    exact ⟨_, rfl⟩
  have huniform := (isOutline_of_read hdoc).2.uniform
  obtain ⟨hiff, halike, -⟩ := @read_reindent _ hf '\t' (by decide) _ huniform []
  obtain ⟨doc', hdoc'⟩ := hiff.mp ⟨doc, hdoc⟩
  have hboth := halike doc doc' hdoc hdoc'
  rw [hlines] at hdoc'
  exact ⟨hlines, doc, doc', hdoc, hdoc', hboth⟩

end Offside
