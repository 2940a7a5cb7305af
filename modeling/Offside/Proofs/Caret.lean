import Mathlib.Data.List.DropRight
import Offside.Proofs.Culprit
import Offside.Proofs.Spelling

/-!
# Where the caret of a report stands

A report has four lines: the summary, and below it three lines with a bar at the same offset. The
third line shows the source, and the caret at the end of the fourth stands below the character at
the column of the diagnostic (`report_caret`). Nothing before that character changes its place: the
bars are as far to the right as the line number is long, a tab is shown as one space, and what is
dropped is at the end of the line.

The column has to be on the line as it is shown, without the carriage returns at its end. For the
diagnostics of a file it always is. The character at fault may itself be a carriage return, as in a
line that is indented wrongly and whose content starts with one, but then a visible character
follows (`IsCulprit.exists_visible`).
-/

namespace Offside

/-! ### Offsets in a line -/

namespace Text

theorem pieces_intercalate {sep : Char} {lines : List Text} (hne : lines ≠ [])
    (h : ∀ line ∈ lines, sep ∉ line) : pieces sep (List.intercalate [sep] lines) = lines := by
  induction lines with
  | nil => exact absurd rfl hne
  | cons line lines ih =>
    have hline : pieces sep line = [line] := pieces_of_not_mem (h line (by simp))
    rcases eq_or_ne lines [] with rfl | hlines
    · rw [List.intercalate_singleton, hline]
    · obtain ⟨next, rest, rfl⟩ := List.exists_cons_of_ne_nil hlines
      rw [List.intercalate_cons_cons, List.append_assoc, List.singleton_append, pieces_append_sep,
        hline, ih hlines fun other hother => h other (by simp [hother])]
      rfl

/-- The first occurrence of a character is behind a text without it. -/
theorem findIdx?_append_cons {c : Char} {front : Text} (h : c ∉ front) (rest : Text) :
    (front ++ c :: rest).findIdx? (· == c) = some front.length := by
  have hfront : front.findIdx? (· == c) = none := by
    rw [List.findIdx?_eq_none_iff]
    intro d hd
    exact beq_false_of_ne fun heq => h (heq ▸ hd)
  rw [List.findIdx?_append, hfront, List.findIdx?_cons, beq_self_eq_true]
  simp

/-- A character that is not dropped at the end keeps all before it. -/
theorem lt_length_rdropWhile {p : Char → Bool} {s : Text} {i j : Nat} {c : Char}
    (h : s[j]? = some c) (hc : p c = false) (hij : i ≤ j) : i < (s.rdropWhile p).length := by
  by_contra hlt
  have hmem : c ∈ s.rtakeWhile p := by
    rw [← @List.rdropWhile_append_rtakeWhile _ p s, List.getElem?_append_right (by omega)] at h
    exact List.mem_of_getElem? h
  exact absurd (List.mem_rtakeWhile_imp hmem) (by simp [hc])

end Text

/-! ### The lines of a report -/

namespace Diagnostic

/-- The offset of the bar in the lines below the summary: behind the line number and a space. -/
def barOffset (d : Diagnostic) : Nat := (Text.ofInt d.line).length + 1

/-- The offset of the caret in its line. -/
def caretOffset (d : Diagnostic) : Nat := d.barOffset + 1 + d.column.toNat

/-- A character of the source line as it is shown: a tab is a space. -/
def shownChar (c : Char) : Char := if c = '\t' then ' ' else c

/-- The source line without the carriage returns at its end. -/
def bareSource (d : Diagnostic) : Text := d.source.rdropWhile (· == '\r')

/-- The lines below a summary are aligned: the bars stand at the same offset, the caret is the only
one in its line and ends it, and if the column is on the line that is shown, the caret is below the
character at that column. -/
structure Aligned (d : Diagnostic) (margin source caret : Text) : Prop where
  bars : ∀ line ∈ [margin, source, caret], line.findIdx? (· == '|') = some d.barOffset
  last : caret.length = d.caretOffset + 1
  only : caret.findIdx? (· == '^') = some d.caretOffset
  under : d.column ≤ d.bareSource.length →
    ∃ c, d.source[(d.column - 1).toNat]? = some c ∧ source[d.caretOffset]? = some (shownChar c)

section Report

variable {d : Diagnostic}

theorem shownSource_eq (hsource : '\n' ∉ d.source) :
    d.shownSource = d.bareSource.map shownChar := by
  have hfeed : d.source.rdropWhile (· == '\n') = d.source := by
    rw [List.rdropWhile_eq_self_iff]
    intro hne hlast
    exact hsource (beq_iff_eq.mp hlast ▸ List.getLast_mem hne)
  rw [List.rdropWhile] at hfeed
  rw [shownSource, hfeed]
  rfl

/-- No line of a report has a line feed in it, if the name of the file and the source line have
none. -/
theorem not_mem_reportLines (hfilename : '\n' ∉ d.filename) (hsource : '\n' ∉ d.source) :
    ∀ line ∈ d.reportLines, '\n' ∉ line := by
  have hnumber : '\n' ∉ Text.ofInt d.line := Text.not_mem_ofInt (by decide) (by decide) d.line
  have hmessage : '\n' ∉ d.fault.message := by rcases d.fault <;> decide
  have hmargin : '\n' ∉ d.margin := by simp [margin]
  have hshown : '\n' ∉ d.shownSource := by
    rw [shownSource_eq hsource]
    intro hfeed
    obtain ⟨c, hc, heq⟩ := List.mem_map.mp hfeed
    rw [shownChar] at heq
    split at heq
    · exact absurd heq (by decide)
    · exact hsource (heq ▸ (List.rdropWhile_prefix _ _).subset hc)
  intro line hline
  simp only [reportLines, List.mem_cons, List.not_mem_nil, or_false] at hline
  rcases hline with rfl | rfl | rfl | rfl
  · simp [summary, hfilename, hnumber, hmessage]
  · exact hmargin
  · simp [hnumber, hshown]
  · simp [hmargin]

theorem length_margin (d : Diagnostic) : d.margin.length = d.barOffset + 1 := by
  simp [margin, barOffset]

theorem findIdx?_margin_append (d : Diagnostic) (rest : Text) :
    (d.margin ++ rest).findIdx? (· == '|') = some d.barOffset := by
  have hspaces : '|' ∉ List.replicate d.barOffset ' ' := by simp
  have hbar := Text.findIdx?_append_cons hspaces rest
  rw [List.length_replicate] at hbar
  rw [← hbar, margin, barOffset, List.append_assoc, List.singleton_append]

theorem findIdx?_source (d : Diagnostic) (shown : Text) :
    (Text.ofInt d.line ++ [' ', '|', ' '] ++ shown).findIdx? (· == '|') = some d.barOffset := by
  have hnumber : '|' ∉ Text.ofInt d.line := Text.not_mem_ofInt (by decide) (by decide) d.line
  have hfront : '|' ∉ Text.ofInt d.line ++ [' '] := by simp [hnumber]
  have hbar := Text.findIdx?_append_cons hfront (' ' :: shown)
  rw [List.length_append, List.length_singleton] at hbar
  rw [barOffset, ← hbar, List.append_assoc, List.append_assoc]
  rfl

/-- In the line of the source, the characters stand as far behind the bar as their columns say. -/
theorem getElem?_source (d : Diagnostic) (shown : Text) {column : Nat} (h : 1 ≤ column) :
    (Text.ofInt d.line ++ [' ', '|', ' '] ++ shown)[d.barOffset + 1 + column]? =
      shown[column - 1]? := by
  have hlength : (Text.ofInt d.line ++ [' ', '|', ' ']).length = d.barOffset + 2 := by
    simp [barOffset]
  rw [List.getElem?_append_right (by omega), hlength]
  congr 1
  omega

theorem aligned_report (hsource : '\n' ∉ d.source) (hcolumn : 1 ≤ d.column) :
    d.Aligned d.margin (Text.ofInt d.line ++ [' ', '|', ' '] ++ d.shownSource)
      (d.margin ++ ' ' :: (List.replicate (d.column - 1).toNat ' ' ++ ['^'])) where
  bars := by
    intro line hline
    simp only [List.mem_cons, List.not_mem_nil, or_false] at hline
    rcases hline with rfl | rfl | rfl
    · simpa using d.findIdx?_margin_append []
    · exact d.findIdx?_source d.shownSource
    · exact d.findIdx?_margin_append _
  last := by
    simp only [List.length_append, List.length_cons, List.length_nil, List.length_replicate,
      length_margin, caretOffset]
    omega
  only := by
    have hspaces : '^' ∉ d.margin ++ ' ' :: List.replicate (d.column - 1).toNat ' ' := by
      simp [margin]
    have hcaret := Text.findIdx?_append_cons hspaces []
    rw [List.append_assoc, List.cons_append] at hcaret
    rw [hcaret]
    simp only [List.length_append, List.length_cons, List.length_replicate, length_margin,
      caretOffset, Option.some.injEq]
    omega
  under := by
    intro hbound
    have hlt : (d.column - 1).toNat < d.bareSource.length := by omega
    have hindex : d.column.toNat - 1 = (d.column - 1).toNat := by omega
    refine ⟨d.bareSource[(d.column - 1).toNat],
      List.prefix_iff_getElem?.mp (List.rdropWhile_prefix _ _) _ hlt, ?_⟩
    rw [caretOffset, d.getElem?_source _ (by omega), shownSource_eq hsource, List.getElem?_map,
      hindex, List.getElem?_eq_getElem hlt, Option.map_some]

end Report

end Diagnostic

/-! ### The column of a fault -/

/-- A line with a place has a visible character at or behind every offset up to which there are only
blanks. -/
theorem Line.exists_visible {line : Line} {offset : Nat} (hs : line.skipped = false)
    (h : ∀ c ∈ line.text.take offset, Text.isBlank c = true) :
    ∃ i ≥ offset, ∃ c, line.text[i]? = some c ∧ Text.isBlank c = false := by
  have hvisible : ∃ c ∈ line.text, Text.isBlank c = false := by
    simp only [Line.skipped, Bool.or_eq_false_iff, Line.isBlank, List.all_eq_false] at hs
    simpa using hs.1
  obtain ⟨c, hc, hblank⟩ := hvisible
  obtain ⟨i, hi⟩ := List.getElem?_of_mem hc
  refine ⟨i, ?_, c, hi, hblank⟩
  by_contra hlt
  have hmem : c ∈ line.text.take offset :=
    List.mem_of_getElem? ((List.getElem?_take_of_lt (by omega)).trans hi)
  exact absurd (h c hmem) (by simp [hblank])

/-- The character at fault is visible, or a visible character follows on the line. -/
theorem IsCulprit.exists_visible {lines : List Text} {line : Line} {fault : Fault} {offset : Nat}
    {c : Char} (h : IsCulprit lines line fault offset c) (hs : line.skipped = false) :
    ∃ i ≥ offset, ∃ d, line.text[i]? = some d ∧ Text.isBlank d = false := by
  cases h with
  | foreign _ char _ _ =>
    -- up to the end of the indentation, all characters are blank
    obtain ⟨hlt, -⟩ := List.getElem?_eq_some_iff.mp char
    refine Line.exists_visible hs fun d hd => ?_
    rw [← line.indent_append_content, List.take_append_of_le_length hlt.le] at hd
    exact Signal.isBlank_of_isIndent (line.isIndent_of_mem_indent d (List.mem_of_mem_take hd))
  | misplaced _ _ before =>
    exact Line.exists_visible hs fun d hd => Signal.isBlank_of_isIndent (before d hd)
  | unpaired char _ _ unpaired =>
    refine ⟨_, le_rfl, c, Line.getElem?_text_of_content char, ?_⟩
    rcases unpaired with _ | _ <;> decide

theorem FaultAt.exists_isCulprit {front : List Text} {text : Text} {roots : List Node}
    {fault : Fault} {offset : Nat} (h : FaultAt front roots ⟨text, front.length⟩ fault offset)
    (hs : (⟨text, front.length⟩ : Line).skipped = false) (rest : List Text) :
    ∃ c, IsCulprit (front ++ text :: rest) ⟨text, front.length⟩ fault offset c := by
  cases h with
  | mixed foreign => exact exists_isCulprit_of_foreign? hs foreign
  | refused _ refuses => exact refuses.exists_isCulprit hs _

/-- The diagnostics of a file are about a line of the file, and the column is on that line even
without the carriage returns at its end. -/
theorem transpile_error_column {lines : List Text} {filename : Text} {e : Diagnostic}
    (h : transpile lines filename = .error e) :
    e.filename = filename ∧ e.source ∈ lines ∧ 1 ≤ e.column ∧ e.column ≤ e.bareSource.length := by
  have hread := eq_error_of_map_eq_error h
  rcases exists_isOutline_or_faultAt lines with
    ⟨roots, hroots⟩ | ⟨front, text, rest, rfl, hs, roots, hroots, fault, offset, hfault⟩
  · rw [read_of_isOutline hroots] at hread
    exact absurd hread (by simp)
  rw [read_of_faultAt hroots hs hfault] at hread
  obtain rfl := Except.error.inj hread
  obtain ⟨c, hculprit⟩ := hfault.exists_isCulprit hs rest
  obtain ⟨i, hi, d, hd, hvisible⟩ := hculprit.exists_visible hs
  have hreturn : (d == '\r') = false :=
    beq_false_of_ne fun heq => absurd hvisible (by rw [heq]; decide)
  have hlt : offset < (text.rdropWhile (· == '\r')).length :=
    Text.lt_length_rdropWhile hd hreturn hi
  refine ⟨rfl, by simp [Line.diagnose], ?_, ?_⟩
  · simp only [Line.diagnose]
    omega
  · simp only [Diagnostic.bareSource, Line.diagnose]
    omega

/-- **The caret is under the character at fault.** A report of a diagnostic whose file name and
source line have no line feeds has four lines, the first of which is the summary, and the others are
aligned, whatever the line number and the column. The diagnostics of a file are of this kind if its
lines are, and their column is on the line that is shown. -/
theorem report_caret :
    (∀ d : Diagnostic, '\n' ∉ d.filename → '\n' ∉ d.source → 1 ≤ d.column →
      ∃ margin source caret,
        Text.pieces '\n' d.report = [d.summary, margin, source, caret] ∧
          d.Aligned margin source caret) ∧
    ∀ (lines : List Text) (filename : Text) (e : Diagnostic),
      (∀ text ∈ lines, '\n' ∉ text) → '\n' ∉ filename → transpile lines filename = .error e →
        '\n' ∉ e.filename ∧ '\n' ∉ e.source ∧ 1 ≤ e.column ∧ e.column ≤ e.bareSource.length := by
  constructor
  · intro d hfilename hsource hcolumn
    refine ⟨_, _, _, ?_, Diagnostic.aligned_report hsource hcolumn⟩
    exact Text.pieces_intercalate (by simp [Diagnostic.reportLines])
      (Diagnostic.not_mem_reportLines hfilename hsource)
  · intro lines filename e hlines hfilename herror
    obtain ⟨hname, hsource, hlow, hhigh⟩ := transpile_error_column herror
    exact ⟨hname ▸ hfilename, hlines _ hsource, hlow, hhigh⟩

/-- A stray parenthesis on the tenth line, behind a tab and a literal with a parenthesis in it, and
in front of carriage returns. -/
theorem report_caret_tenth_line :
    let source := "\t\"(\" b)\r\r".toList
    let lines := List.replicate 9 "a".toList ++ [source]
    let e : Diagnostic := ⟨.mismatchedParentheses, "f".toList, 10, 7, source⟩
    (∀ text ∈ lines, '\n' ∉ text) ∧ transpile lines "f".toList = .error e ∧
      e.column ≤ e.bareSource.length ∧
      ∃ margin shown caret, Text.pieces '\n' e.report = [e.summary, margin, shown, caret] ∧
        e.Aligned margin shown caret := by
  intro source lines e
  have hlines : ∀ text ∈ lines, '\n' ∉ text := by decide
  have herror : transpile lines "f".toList = .error e := by decide +kernel
  obtain ⟨hfilename, hsource, hlow, hhigh⟩ :=
    report_caret.2 lines "f".toList e hlines (by decide) herror
  exact ⟨hlines, herror, hhigh, report_caret.1 e hfilename hsource hlow⟩

end Offside
