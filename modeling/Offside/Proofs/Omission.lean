import Offside.Compilation
import Offside.Proofs.Likeness
import Offside.Proofs.Signal

/-!
# Skipped lines are invisible

Blank lines and comments can be left out of a file, wherever they stand and however they are
indented. What is read without them is what is read with them, up to the line numbers, and each
of these is the number of the kept line in the whole file (`read_keptLines`). This holds of
outlines and of diagnostics alike.

A skipped line neither opens nor closes a level and fixes no indentation mark, so the two files have
the same mark at corresponding lines (`firstMark_keptLines`). The rest is a comparison of two runs.
Corresponding lines have one text, so the step lemmas for forests that are alike apply with the
widths left as they are.
-/

namespace Offside

/-! ### Numbering anew -/

/-- The line with another number. -/
def Line.renumber (f : Int → Int) (line : Line) : Line := { line with index := f line.number - 1 }

mutual

/-- The tree with other line numbers. -/
def Node.renumber (f : Int → Int) : Node → Node
  | .subtree line tokens children =>
    .subtree (line.renumber f) tokens (Node.renumberAll f children)
  | .continuation text number => .continuation text (f number)

/-- The trees of a forest with other line numbers. -/
def Node.renumberAll (f : Int → Int) : List Node → List Node
  | [] => []
  | node :: nodes => node.renumber f :: Node.renumberAll f nodes

end

/-- The outline with other line numbers. -/
def Document.renumber (f : Int → Int) (doc : Document) : Document :=
  { doc with roots := Node.renumberAll f doc.roots }

/-- The diagnostic with another line number. -/
def Diagnostic.renumber (f : Int → Int) (d : Diagnostic) : Diagnostic :=
  { d with line := f d.line }

section Renumber

variable (f : Int → Int)

theorem Line.number_renumber (line : Line) : (line.renumber f).number = f line.number := by
  simp only [Line.number, Line.renumber]
  omega

theorem Node.renumberAll_eq_map (nodes : List Node) :
    Node.renumberAll f nodes = nodes.map (Node.renumber f) := by
  induction nodes with
  | nil => rfl
  | cons node nodes ih => rw [Node.renumberAll, ih, List.map_cons]

/-- Records do not show line numbers. -/
theorem Node.record_renumber (node : Node) : (node.renumber f).record = node.record := by
  induction node using Node.induction with
  | continuation text number => rfl
  | subtree line tokens children ih =>
    have hbelow : (children.map (Node.renumber f)).map Node.record = children.map Node.record := by
      rw [List.map_map]
      exact List.map_congr_left ih
    rw [Node.renumber, Node.renumberAll_eq_map, Node.record, Node.records_eq_map, hbelow,
      Node.needsParens_map, Node.record, Node.records_eq_map]
    rfl

theorem Document.records_renumber (doc : Document) : (doc.renumber f).records = doc.records := by
  have hrecords : (doc.roots.map (Node.renumber f)).map Node.record =
      doc.roots.map Node.record := by
    rw [List.map_map]
    exact List.map_congr_left fun node _ => node.record_renumber f
  rw [Document.records, Document.renumber, Node.renumberAll_eq_map, Node.records_eq_map, hrecords,
    Document.records, Node.records_eq_map]

/-- Lines that differ in their numbers have one content and one width. -/
theorem keepsOrder_renumber : KeepsOrder id fun line line' => line = line'.renumber f where
  strictMono := strictMono_id
  width_eq := by
    rintro _ line' rfl
    rfl
  content_eq := by
    rintro _ line' rfl
    rfl

/-- Two trees are alike, and the numbers of the first come from those of the second. -/
abbrev AlikeUpTo : Node → Node → Prop :=
  Alike (fun line line' => line = line'.renumber f) (fun node node' => node = node'.renumber f)

theorem eq_renumber_of_alike {node node' : Node} (h : AlikeUpTo f node node') :
    node = node'.renumber f := by
  induction node using Node.induction generalizing node' with
  | continuation text number =>
    rcases h with _ | hcontinuation
    exact hcontinuation
  | subtree line tokens children ih =>
    rcases h with ⟨rfl, -, below⟩
    have hboth := (List.forall₂_and_left _ _).mpr ⟨ih, below⟩
    have hbelow := hboth.imp fun _ _ h => h.1 h.2
    rw [← List.forall₂_map_right_iff, List.forall₂_eq_eq_eq] at hbelow
    rw [Node.renumber, Node.renumberAll_eq_map, hbelow]

theorem eq_renumberAll_of_alike {nodes nodes' : List Node}
    (h : List.Forall₂ (AlikeUpTo f) nodes nodes') : nodes = Node.renumberAll f nodes' := by
  have heq := h.imp fun _ _ h => eq_renumber_of_alike f h
  rwa [← List.forall₂_map_right_iff, List.forall₂_eq_eq_eq, ← Node.renumberAll_eq_map] at heq

end Renumber

/-! ### Leaving skipped lines out -/

/-- The lines of a file that are not skipped. -/
def keptLines (lines : List Text) : List Text :=
  lines.filter fun text => !(⟨text, 0⟩ : Line).skipped

/-- The number that a kept line has in the whole file, from its number among the kept lines. -/
def keptNumber (lines : List Text) (number : Int) : Int :=
  ((outlineLines lines)[(number - 1).toNat]?.map Line.number).getD number

section Kept

variable {lines : List Text} {text : Text}

theorem keptLines_append (lines rest : List Text) :
    keptLines (lines ++ rest) = keptLines lines ++ keptLines rest :=
  List.filter_append ..

theorem keptLines_concat_of_skipped {index : Int} (h : (⟨text, index⟩ : Line).skipped = true) :
    keptLines (lines ++ [text]) = keptLines lines := by
  have hs : (⟨text, 0⟩ : Line).skipped = true := h
  simp [keptLines, hs]

theorem keptLines_cons_of_not_skipped {index : Int}
    (h : (⟨text, index⟩ : Line).skipped = false) (rest : List Text) :
    keptLines (text :: rest) = text :: keptLines rest := by
  have hs : (⟨text, 0⟩ : Line).skipped = false := h
  simp [keptLines, hs]

theorem keptLines_concat_of_not_skipped {index : Int}
    (h : (⟨text, index⟩ : Line).skipped = false) :
    keptLines (lines ++ [text]) = keptLines lines ++ [text] := by
  rw [keptLines_append, keptLines_cons_of_not_skipped h]
  rfl

theorem map_text_outlineLines (lines : List Text) :
    (outlineLines lines).map Line.text = keptLines lines := by
  induction lines using List.reverseRecOn with
  | nil => rfl
  | append_singleton lines text ih =>
    cases hs : (⟨text, lines.length⟩ : Line).skipped with
    | true => rw [outlineLines_concat_of_skipped hs, keptLines_concat_of_skipped hs, ih]
    | false =>
      rw [outlineLines_concat_of_not_skipped hs, keptLines_concat_of_not_skipped hs,
        List.map_append, ih]
      rfl

theorem length_outlineLines (lines : List Text) :
    (outlineLines lines).length = (keptLines lines).length := by
  rw [← map_text_outlineLines, List.length_map]

/-- Skipped lines do not fix the indentation mark. -/
theorem firstMark_keptLines (lines : List Text) :
    firstMark (keptLines lines) = firstMark lines := by
  have hmark (lines : List Text) :
      firstMark lines =
        ((keptLines lines).flatMap fun text => (⟨text, 0⟩ : Line).indent).head? := by
    rw [← map_text_outlineLines, List.flatMap_map]
    rfl
  have hkept : keptLines (keptLines lines) = keptLines lines := by
    rw [keptLines, keptLines, List.filter_filter]
    simp only [Bool.and_self]
  rw [hmark, hkept, hmark]

/-- A line that has a place stands behind as many kept lines as there are before it in the
outline. -/
theorem exists_of_getElem?_outlineLines {i : Nat} {line : Line}
    (h : (outlineLines lines)[i]? = some line) :
    ∃ j : Nat, line.index = j ∧ lines[j]? = some line.text ∧
      (keptLines (lines.take j)).length = i := by
  induction lines using List.reverseRecOn with
  | nil => simp [outlineLines] at h
  | append_singleton lines text ih =>
    have hfront (h : (outlineLines lines)[i]? = some line) :
        ∃ j : Nat, line.index = j ∧ (lines ++ [text])[j]? = some line.text ∧
          (keptLines ((lines ++ [text]).take j)).length = i := by
      obtain ⟨j, hindex, htext, hcount⟩ := ih h
      have hlt := (List.getElem?_eq_some_iff.mp htext).1
      refine ⟨j, hindex, ?_, ?_⟩
      · rw [List.getElem?_append_left hlt, htext]
      · rw [List.take_append_of_le_length (Nat.le_of_lt hlt), hcount]
    cases hs : (⟨text, lines.length⟩ : Line).skipped with
    | true =>
      rw [outlineLines_concat_of_skipped hs] at h
      exact hfront h
    | false =>
      rw [outlineLines_concat_of_not_skipped hs] at h
      rcases Nat.lt_or_ge i (outlineLines lines).length with hi | hi
      · rw [List.getElem?_append_left hi] at h
        exact hfront h
      · rw [List.getElem?_append_right hi, List.getElem?_singleton] at h
        obtain ⟨hzero, heq⟩ := Option.ite_none_right_eq_some.mp h
        obtain rfl := Option.some.inj heq
        refine ⟨lines.length, rfl, by simp, ?_⟩
        rw [List.take_left, ← length_outlineLines]
        omega

theorem keptNumber_of_getElem? {i : Nat} {line : Line}
    (h : (outlineLines lines)[i]? = some line) : keptNumber lines (i + 1) = line.number := by
  have hindex : ((i : Int) + 1 - 1).toNat = i := by omega
  rw [keptNumber, hindex, h]
  rfl

/-- The number of a kept line in the whole file is that of the line that it is. -/
theorem exists_keptNumber_eq {i : Nat} (h : (keptLines lines)[i]? = some text) :
    ∃ j : Nat, keptNumber lines (i + 1) = j + 1 ∧ lines[j]? = some text ∧
      (keptLines (lines.take j)).length = i := by
  rw [← map_text_outlineLines, List.getElem?_map, Option.map_eq_some_iff] at h
  obtain ⟨line, hline, rfl⟩ := h
  obtain ⟨j, hindex, htext, hcount⟩ := exists_of_getElem?_outlineLines hline
  refine ⟨j, ?_, htext, hcount⟩
  rw [keptNumber_of_getElem? hline, Line.number, hindex]

end Kept

/-! ### Two runs -/

/-- A numbering gives the lines of a file that have a place their numbers, by their position among
these lines. -/
def Locates (f : Int → Int) (lines : List Text) : Prop :=
  ∀ (i : Nat) (line : Line), (outlineLines lines)[i]? = some line → f (i + 1) = line.number

theorem locates_keptNumber (lines : List Text) : Locates (keptNumber lines) lines :=
  fun _ _ => keptNumber_of_getElem?

section Runs

variable {f : Int → Int} {lines : List Text} {text : Text} {roots : List Node}

theorem Locates.of_append {rest : List Text} (h : Locates f (lines ++ rest)) : Locates f lines := by
  intro i line hi
  have hlt := (List.getElem?_eq_some_iff.mp hi).1
  refine h i line ?_
  rw [outlineLines_append, List.getElem?_append_left hlt, hi]

/-- The last line of a file, and what it is among the kept lines. -/
theorem Locates.eq_renumber (h : Locates f (lines ++ [text]))
    (hs : (⟨text, lines.length⟩ : Line).skipped = false) :
    (⟨text, lines.length⟩ : Line) = (⟨text, (keptLines lines).length⟩ : Line).renumber f := by
  have hlast : (outlineLines (lines ++ [text]))[(keptLines lines).length]? =
      some ⟨text, lines.length⟩ := by
    rw [outlineLines_concat_of_not_skipped hs, ← length_outlineLines, List.getElem?_concat_length]
  have hnumber := h _ _ hlast
  rw [Line.renumber, Line.number, hnumber, Line.number, Int.add_sub_cancel]

/-- Without the skipped lines, a file has the same outline up to line numbers. -/
theorem IsOutline.exists_keptLines (h : IsOutline lines roots) (hf : Locates f lines) :
    ∃ kept, IsOutline (keptLines lines) kept ∧ List.Forall₂ (AlikeUpTo f) roots kept := by
  induction lines using List.reverseRecOn generalizing roots with
  | nil =>
    obtain rfl := isOutline_nil_iff.mp h
    exact ⟨[], isOutline_nil_iff.mpr rfl, .nil⟩
  | append_singleton lines text ih =>
    cases hs : (⟨text, lines.length⟩ : Line).skipped with
    | true =>
      rw [keptLines_concat_of_skipped hs]
      exact ih ((isOutline_concat_of_skipped hs).mp h) hf.of_append
    | false =>
      have hs' : (⟨text, (keptLines lines).length⟩ : Line).skipped = false := hs
      have hline := hf.eq_renumber hs
      have hmark : firstMark (keptLines lines ++ [text]) = firstMark (lines ++ [text]) := by
        rw [← keptLines_concat_of_not_skipped hs, firstMark_keptLines]
      have hcontinued : (⟨text, lines.length⟩ : Line).continuation (firstMark (lines ++ [text])) =
          ((⟨text, (keptLines lines).length⟩ : Line).continuation
            (firstMark (keptLines lines ++ [text]))).renumber f := by
        rw [hmark, hline, Line.continuation, Line.number_renumber]
        rfl
      obtain ⟨hindent, before, hbefore, hgrows⟩ := (isOutline_concat_iff hs).mp h
      obtain ⟨before', hbefore', halike⟩ := ih hbefore hf.of_append
      obtain ⟨kept, hgrows', halike'⟩ :=
        hgrows.alike (keepsOrder_renumber f) hline hcontinued .root halike
      rw [keptLines_concat_of_not_skipped hs]
      refine ⟨kept, (isOutline_concat_iff hs').mpr ⟨?_, before', hbefore', hgrows'⟩, halike'⟩
      rw [hmark]
      exact hindent

/-- A line at fault behind an outline is at fault without the skipped lines before it, at the same
offset. -/
theorem FaultAt.of_alike {kept : List Node} {fault : Fault} {offset : Nat}
    (h : FaultAt lines roots ⟨text, lines.length⟩ fault offset)
    (hline : (⟨text, lines.length⟩ : Line) =
      (⟨text, (keptLines lines).length⟩ : Line).renumber f)
    (halike : List.Forall₂ (AlikeUpTo f) roots kept) :
    FaultAt (keptLines lines) kept ⟨text, (keptLines lines).length⟩ fault offset := by
  rcases h with foreign | ⟨native, refuses⟩
  · rw [← firstMark_keptLines] at foreign
    exact .mixed foreign
  · rw [← firstMark_keptLines] at native
    obtain ⟨inner, hoffset, hrefuses⟩ := refuses.alike (keepsOrder_renumber f) hline .root halike
    rw [hoffset]
    exact .refused native hrefuses

end Runs

/-- A file is read with and without its skipped lines, or the first fault is on the same line of
both. -/
theorem read_keptLines_cases (lines : List Text) (filename : Text) :
    (∃ doc, Document.read (keptLines lines) filename = .ok doc ∧
      Document.read lines filename = .ok (doc.renumber (keptNumber lines))) ∨
    ∃ e, Document.read (keptLines lines) filename = .error e ∧
      Document.read lines filename = .error (e.renumber (keptNumber lines)) := by
  have hf := locates_keptNumber lines
  rcases exists_isOutline_or_faultAt lines with
    ⟨roots, hroots⟩ | ⟨front, text, rest, rfl, hs, roots, hroots, fault, offset, hfault⟩
  · obtain ⟨kept, hkept, halike⟩ := hroots.exists_keptLines hf
    refine .inl ⟨⟨kept, filename⟩, read_of_isOutline hkept filename, ?_⟩
    rw [read_of_isOutline hroots, eq_renumberAll_of_alike _ halike, Document.renumber]
  · have hupto : Locates (keptNumber (front ++ text :: rest)) (front ++ [text]) := by
      rw [List.append_cons] at hf ⊢
      exact hf.of_append
    obtain ⟨kept, hkept, halike⟩ := hroots.exists_keptLines hupto.of_append
    have hline := hupto.eq_renumber hs
    have hread := read_of_faultAt hkept hs (hfault.of_alike hline halike) (keptLines rest) filename
    rw [← keptLines_cons_of_not_skipped hs, ← keptLines_append] at hread
    refine .inr ⟨_, hread, ?_⟩
    have hnumber := congrArg Line.number hline
    rw [Line.number_renumber] at hnumber
    rw [read_of_faultAt hroots hs hfault, Diagnostic.renumber, Line.diagnose, hnumber]
    rfl

/-- **Skipped lines are invisible.** Without its blank lines and comments, a file has the same
outline, the same records and the same fault, up to line numbers. Each number is mapped to the
number that the kept line has in the whole file, where as many kept lines stand before it. -/
theorem read_keptLines (lines : List Text) (filename : Text) :
    Document.read lines filename =
        ((Document.read (keptLines lines) filename).map
          (Document.renumber (keptNumber lines))).mapError
            (Diagnostic.renumber (keptNumber lines)) ∧
      transpile lines filename =
        (transpile (keptLines lines) filename).mapError (Diagnostic.renumber (keptNumber lines)) ∧
      ∀ (i : Nat) (text : Text), (keptLines lines)[i]? = some text →
        ∃ j : Nat, keptNumber lines (i + 1) = j + 1 ∧ lines[j]? = some text ∧
          (keptLines (lines.take j)).length = i := by
  refine ⟨?_, ?_, fun i text => exists_keptNumber_eq⟩
  · rcases read_keptLines_cases lines filename with ⟨doc, hkept, hread⟩ | ⟨e, hkept, hread⟩
    · rw [hkept, hread]
      rfl
    · rw [hkept, hread]
      rfl
  · rcases read_keptLines_cases lines filename with ⟨doc, hkept, hread⟩ | ⟨e, hkept, hread⟩
    · have hrecords := doc.records_renumber (keptNumber lines)
      rw [transpile, transpile, hkept, hread, Except.map, hrecords]
      rfl
    · rw [transpile, transpile, hkept, hread]
      rfl

end Offside
