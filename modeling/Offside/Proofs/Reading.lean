import Offside.Proofs.Placement

/-!
# What the reader accepts

The reader gives an outline exactly when there is one, and it gives the only one
(`read_eq_ok_iff`). The proof follows the lines of the file. Behind a part of the file that has
an outline, the reader has this outline open and the first indentation character as its mark,
whatever comes next (`IsOutline.resumes`). The next line then makes the outline grow, or it is
at fault, and then all of the reading fails there (`IsOutline.next`). Hence every file has an
outline, or a first line at which the part before it has no larger outline
(`exists_isOutline_or_faultAt`).
-/

namespace Offside

/-! ### The mark of the file -/

theorem Indentation.foreign?_eq_none_iff {mark : Option Char} {indent : Text} :
    Indentation.foreign? mark indent = none ↔
      ∀ c ∈ indent, Indentation.settle mark indent = some c := by
  rw [Indentation.foreign?]
  cases h : Indentation.settle mark indent with
  | some m =>
    simp only [List.findIdx?_eq_none_iff, bne_eq_false_iff_eq, Option.some.injEq]
    exact forall₂_congr fun c _ => eq_comm
  | none =>
    -- without a mark there is no indentation either
    have hnil : indent = [] := by
      cases mark with
      | some m => simp [Indentation.settle] at h
      | none => simpa [Indentation.settle] using h
    simp [hnil]

/-! ### Reading on -/

/-- Reading a whole file. -/
def Reading.start (filename : Text) (lines : List Text) : Reading :=
  Reading.of filename 0 none (.under Reader.rootWidth) [] lines

theorem read_eq_start (lines : List Text) (filename : Text) :
    Document.read lines filename = (Reading.start filename lines).result.map (⟨·, filename⟩) :=
  rfl

/-- Behind the given lines, the reader has the forest open, whatever lines are left. -/
def Resumes (filename : Text) (lines : List Text) (roots : List Node) : Prop :=
  ∃ level stack, Opens Reader.rootWidth roots [] level stack ∧
    ∀ rest, Reading.start filename (lines ++ rest) =
      Reading.of filename lines.length (firstMark lines) level stack rest

section Step

variable {filename text : Text} {lines : List Text} {roots : List Node}

/-- A line without a place is passed over. -/
theorem Resumes.skip (h : Resumes filename lines roots)
    (hs : (⟨text, lines.length⟩ : Line).skipped = true) :
    Resumes filename (lines ++ [text]) roots := by
  obtain ⟨level, stack, hopens, hrun⟩ := h
  refine ⟨level, stack, hopens, fun rest => ?_⟩
  rw [List.append_assoc, List.singleton_append, hrun, Reading.of]
  simp [hs, firstMark, outlineLines_concat_of_skipped hs]

/-- A line that makes the forest grow is read. -/
theorem Resumes.grow {roots' : List Node} (h : Resumes filename lines roots)
    (hnested : Nested lines Reader.rootWidth roots)
    (hs : (⟨text, lines.length⟩ : Line).skipped = false)
    (hindent : ∀ c ∈ (⟨text, lines.length⟩ : Line).indent, firstMark (lines ++ [text]) = some c)
    (hgrows : Grows (firstMark (lines ++ [text])) ⟨text, lines.length⟩ Reader.rootWidth
      roots roots') :
    Resumes filename (lines ++ [text]) roots' := by
  obtain ⟨level, stack, hopens, hrun⟩ := h
  obtain ⟨level', stack', hplace, hopens'⟩ := hopens.place_of_grows hnested hgrows
  refine ⟨level', stack', hopens', fun rest => ?_⟩
  have hmark := firstMark_concat_of_not_skipped hs
  rw [hmark] at hindent hplace
  rw [List.append_assoc, List.singleton_append, hrun, Reading.of]
  simp only [hs, Bool.false_eq_true, if_false, Indentation.foreign?_eq_none_iff.mpr hindent, hplace,
    hmark, List.length_append, List.length_singleton]

/-- A line that is not skipped is at fault behind an outline, at an offset. -/
inductive FaultAt (lines : List Text) (roots : List Node) (line : Line) : Fault → Nat → Prop
  | mixed {offset : Nat}
      (foreign : Indentation.foreign? (firstMark lines) line.indent = some offset) :
      FaultAt lines roots line .mixedIndentation offset
  | refused {fault : Fault} {offset : Nat}
      (native : Indentation.foreign? (firstMark lines) line.indent = none)
      (refuses : Refuses line Reader.rootWidth roots fault offset) :
      FaultAt lines roots line fault offset

/-- Reading ends at a line at fault, whatever lines are left. -/
theorem Resumes.fail {fault : Fault} {offset : Nat} (h : Resumes filename lines roots)
    (hnested : Nested lines Reader.rootWidth roots)
    (hs : (⟨text, lines.length⟩ : Line).skipped = false)
    (hfault : FaultAt lines roots ⟨text, lines.length⟩ fault offset) (rest : List Text) :
    (Reading.start filename (lines ++ text :: rest)).result =
      .error ((⟨text, lines.length⟩ : Line).diagnose filename fault offset) := by
  obtain ⟨level, stack, hopens, hrun⟩ := h
  rw [hrun, Reading.of]
  cases hfault with
  | mixed foreign => simp [hs, foreign]
  | refused native refuses => simp [hs, native, hopens.place_of_refuses hnested refuses]

/-- Behind an outline, the next line makes it grow or is at fault. -/
theorem IsOutline.next (h : IsOutline lines roots) (text : Text) :
    (∃ roots', IsOutline (lines ++ [text]) roots') ∨
      (⟨text, lines.length⟩ : Line).skipped = false ∧
        ∃ fault offset, FaultAt lines roots ⟨text, lines.length⟩ fault offset := by
  cases hs : (⟨text, lines.length⟩ : Line).skipped with
  | true => exact .inl ⟨roots, (isOutline_concat_of_skipped hs).mpr h⟩
  | false =>
    cases hforeign :
      Indentation.foreign? (firstMark lines) (⟨text, lines.length⟩ : Line).indent with
    | some offset => exact .inr ⟨rfl, _, offset, .mixed hforeign⟩
    | none =>
      rcases h.nested.grows_or_refuses (firstMark (lines ++ [text])) ⟨text, lines.length⟩ with
        ⟨roots', hgrows⟩ | ⟨fault, offset, hrefuses⟩
      · refine .inl ⟨roots', (isOutline_concat_iff hs).mpr ⟨?_, roots, h, hgrows⟩⟩
        rw [firstMark_concat_of_not_skipped hs]
        exact Indentation.foreign?_eq_none_iff.mp hforeign
      · exact .inr ⟨rfl, fault, offset, .refused hforeign hrefuses⟩

end Step

/-! ### Reading all lines -/

theorem Node.eq_nil_of_numbers_eq_nil {nodes : List Node} (h : Node.numbers nodes = []) :
    nodes = [] := by
  cases nodes with
  | nil => rfl
  | cons node nodes =>
    have hmem : node ∈ Node.flatten (node :: nodes) := Node.mem_flatten_self List.mem_cons_self
    rw [List.map_eq_nil_iff.mp h] at hmem
    simp at hmem

theorem isOutline_nil_iff {roots : List Node} : IsOutline [] roots ↔ roots = [] := by
  constructor
  · intro h
    exact Node.eq_nil_of_numbers_eq_nil h.listed
  · rintro rfl
    exact ⟨rfl, by simp, .nil _ _, ' ', by simp [outlineLines]⟩

/-- Behind lines that have an outline, the reader has this outline open. -/
theorem IsOutline.resumes {lines : List Text} {roots : List Node} (h : IsOutline lines roots)
    (filename : Text) : Resumes filename lines roots := by
  induction lines using List.reverseRecOn generalizing roots with
  | nil =>
    obtain rfl := isOutline_nil_iff.mp h
    exact ⟨_, _, .nil _ _, fun rest => rfl⟩
  | append_singleton lines text ih =>
    cases hs : (⟨text, lines.length⟩ : Line).skipped with
    | true => exact (ih ((isOutline_concat_of_skipped hs).mp h)).skip hs
    | false =>
      obtain ⟨hindent, before, hbefore, hgrows⟩ := (isOutline_concat_iff hs).mp h
      exact (ih hbefore).grow hbefore.nested hs hindent hgrows

/-- An outline of the lines is what the reader gives. -/
theorem read_of_isOutline {lines : List Text} {roots : List Node} (h : IsOutline lines roots)
    (filename : Text) : Document.read lines filename = .ok ⟨roots, filename⟩ := by
  obtain ⟨level, stack, hopens, hrun⟩ := h.resumes filename
  have hroots : (level.closeAll stack).toList = roots := by
    rw [hopens.closeAll_eq, Level.closeAll, Level.toList, Level.ofNodes, List.reverse_reverse]
  rw [read_eq_start, ← List.append_nil lines, hrun, Reading.of, hroots]
  rfl

/-- The first line at fault is what the reader reports. -/
theorem read_of_faultAt {lines : List Text} {roots : List Node} {text : Text} {fault : Fault}
    {offset : Nat} (h : IsOutline lines roots)
    (hs : (⟨text, lines.length⟩ : Line).skipped = false)
    (hfault : FaultAt lines roots ⟨text, lines.length⟩ fault offset) (rest : List Text)
    (filename : Text) :
    Document.read (lines ++ text :: rest) filename =
      .error ((⟨text, lines.length⟩ : Line).diagnose filename fault offset) := by
  rw [read_eq_start, (h.resumes filename).fail h.nested hs hfault]
  rfl

/-- A file has an outline, or a line at fault behind a part that has one. -/
theorem exists_isOutline_or_faultAt (lines : List Text) :
    (∃ roots, IsOutline lines roots) ∨
      ∃ front text rest, lines = front ++ text :: rest ∧
        (⟨text, front.length⟩ : Line).skipped = false ∧
        ∃ roots, IsOutline front roots ∧
          ∃ fault offset, FaultAt front roots ⟨text, front.length⟩ fault offset := by
  induction lines using List.reverseRecOn with
  | nil => exact .inl ⟨[], isOutline_nil_iff.mpr rfl⟩
  | append_singleton lines text ih =>
    rcases ih with ⟨roots, hroots⟩ | ⟨front, text', rest, rfl, hfault⟩
    · rcases hroots.next text with hnext | ⟨hs, hfault⟩
      · exact .inl hnext
      · exact .inr ⟨lines, text, [], rfl, hs, roots, hroots, hfault⟩
    · exact .inr ⟨front, text', rest ++ [text], by simp, hfault⟩

theorem isOutline_of_read {lines : List Text} {filename : Text} {doc : Document}
    (h : Document.read lines filename = .ok doc) :
    doc.filename = filename ∧ IsOutline lines doc.roots := by
  rcases exists_isOutline_or_faultAt lines with
    ⟨roots, hroots⟩ | ⟨front, text, rest, rfl, hs, roots, hroots, fault, offset, hfault⟩
  · rw [read_of_isOutline hroots filename] at h
    obtain rfl := Except.ok.inj h
    exact ⟨rfl, hroots⟩
  · rw [read_of_faultAt hroots hs hfault] at h
    exact absurd h (by simp)

/-- **The reader accepts exactly the files that have an outline**, and gives the outline. So a
file has at most one. -/
theorem read_eq_ok_iff (lines : List Text) (filename : Text) (doc : Document) :
    Document.read lines filename = .ok doc ↔
      doc.filename = filename ∧ IsOutline lines doc.roots := by
  constructor
  · exact isOutline_of_read
  · rintro ⟨rfl, h⟩
    exact read_of_isOutline h doc.filename

end Offside
