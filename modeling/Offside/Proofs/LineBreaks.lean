import Mathlib.Data.List.Chain
import Offside.Compilation

/-!
# Lines and their breaks

A line ends with a line feed, a carriage return, or both. Dividing a text into lines undoes writing
lines one behind the other with any breaks (`splitLines_undoes_writing`). There are two
ways in which a text could be written by more than one list of lines, and both are settled here:

* A carriage return in front of an empty line that ends with a line feed would read as one break, so
  such lines are not written one behind the other (`EndedLine.Precedes`).
* A break at the very end starts no further line. So the last line of a text may be without a
  break, but then it is not empty.

Other than that, every text is written by its lines in exactly one way. Which breaks are used does
not matter to what is compiled.
-/

namespace Offside

/-! ### Writing lines -/

/-- What ends a line. -/
inductive LineBreak where
  | lf
  | cr
  | crlf
  deriving DecidableEq, Repr

/-- The characters of a line break. -/
def LineBreak.text : LineBreak → Text
  | .lf => ['\n']
  | .cr => ['\r']
  | .crlf => ['\r', '\n']

/-- A text without carriage returns and line feeds. -/
def Text.Unbroken (s : Text) : Prop := '\r' ∉ s ∧ '\n' ∉ s

/-- A line with the break that ends it. -/
structure EndedLine where
  text : Text
  ending : LineBreak
  unbroken : text.Unbroken

/-- The line and its break. -/
def EndedLine.written (line : EndedLine) : Text := line.text ++ line.ending.text

/-- Two lines can be written one behind the other: the carriage return of the first is not in front
of a line feed. -/
def EndedLine.Precedes (line next : EndedLine) : Prop :=
  ¬ (line.ending = .cr ∧ next.text = [] ∧ next.ending = .lf)

/-- A text is the given lines, written one behind the other with any breaks. -/
inductive Writes : List Text → Text → Prop
  | ended (front : List EndedLine) (apart : front.IsChain EndedLine.Precedes) :
      Writes (front.map EndedLine.text) (front.flatMap EndedLine.written)
  /-- The last line has no break, and is not empty. -/
  | unended (front : List EndedLine) (apart : front.IsChain EndedLine.Precedes) (last : Text)
      (unbroken : last.Unbroken) (hne : last ≠ []) :
      Writes (front.map EndedLine.text ++ [last]) (front.flatMap EndedLine.written ++ last)

/-- Every line feed of the first text is a carriage return in the second, with or without a line
feed behind it. All other characters are the same. -/
inductive Rebreaks : Text → Text → Prop
  | nil : Rebreaks [] []
  | cr {s t : Text} (rest : Rebreaks s t) : Rebreaks ('\n' :: s) ('\r' :: t)
  | crlf {s t : Text} (rest : Rebreaks s t) : Rebreaks ('\n' :: s) ('\r' :: '\n' :: t)
  | char {c : Char} {s t : Text} (hfeed : c ≠ '\n') (rest : Rebreaks s t) :
      Rebreaks (c :: s) (c :: t)

/-! ### Dividing what was written -/

theorem Text.unbroken_nil : Unbroken [] := ⟨List.not_mem_nil, List.not_mem_nil⟩

theorem Text.unbroken_cons {c : Char} {s : Text} :
    Unbroken (c :: s) ↔ (c ≠ '\r' ∧ c ≠ '\n') ∧ s.Unbroken := by
  simp only [Unbroken, List.mem_cons, not_or, ne_eq, eq_comm]
  tauto

theorem splitLines_cons_of_ne {c : Char} (hreturn : c ≠ '\r') (hfeed : c ≠ '\n') (s : Text) :
    splitLines (c :: s) = Text.consFirst c (splitLines s) := by
  rw [splitLines]
  · exact fun _ h => absurd h hreturn
  · exact hreturn
  · exact hfeed

/-- A carriage return that is not in front of a line feed is a break. -/
theorem splitLines_return {s : Text} (h : s.head? ≠ some '\n') :
    splitLines ('\r' :: s) = [] :: splitLines s := by
  rw [splitLines]
  rintro t rfl
  exact h rfl

theorem splitLines_of_unbroken {s : Text} (h : s.Unbroken) (hne : s ≠ []) : splitLines s = [s] := by
  induction s with
  | nil => exact absurd rfl hne
  | cons c s ih =>
    obtain ⟨⟨hreturn, hfeed⟩, hs⟩ := Text.unbroken_cons.mp h
    rw [splitLines_cons_of_ne hreturn hfeed]
    rcases eq_or_ne s [] with rfl | hs'
    · rfl
    · rw [ih hs hs']
      rfl

/-- A line with its break is divided off. -/
theorem EndedLine.splitLines_append (line : EndedLine) {rest : Text}
    (h : line.ending = .cr → rest.head? ≠ some '\n') :
    splitLines (line.written ++ rest) = line.text :: splitLines rest := by
  obtain ⟨text, ending, unbroken⟩ := line
  induction text with
  | nil => cases ending with
    | lf => rfl
    | cr => exact splitLines_return (h rfl)
    | crlf => rfl
  | cons c s ih =>
    obtain ⟨⟨hreturn, hfeed⟩, hs⟩ := Text.unbroken_cons.mp unbroken
    have hrest := ih hs h
    rw [written, List.cons_append, List.cons_append, splitLines_cons_of_ne hreturn hfeed]
    rw [written] at hrest
    rw [hrest]
    rfl

/-- A written line starts with a line feed only if it is empty and a line feed ends it. -/
theorem EndedLine.head?_written_append (line : EndedLine) (rest : Text) :
    (line.written ++ rest).head? = some '\n' ↔ line.text = [] ∧ line.ending = .lf := by
  obtain ⟨_ | ⟨c, s⟩, ending, unbroken⟩ := line
  · cases ending <;> simp [written, LineBreak.text]
  · simp [written, (Text.unbroken_cons.mp unbroken).1.2]

/-- Lines that were written are divided again, and so is what follows them on the last line. -/
theorem splitLines_flatMap_append {front : List EndedLine}
    (apart : front.IsChain EndedLine.Precedes) {tail : Text} (htail : tail.Unbroken) :
    splitLines (front.flatMap EndedLine.written ++ tail) =
      front.map EndedLine.text ++ splitLines tail := by
  induction front with
  | nil => rfl
  | cons line front ih =>
    obtain ⟨hnext, apart⟩ := List.isChain_cons.mp apart
    have hbreak : line.ending = .cr →
        (front.flatMap EndedLine.written ++ tail).head? ≠ some '\n' := by
      intro hreturn hfeed
      cases front with
      | nil => exact htail.2 (List.mem_of_mem_head? hfeed)
      | cons next front =>
        rw [List.flatMap_cons, List.append_assoc, next.head?_written_append] at hfeed
        exact hnext next rfl ⟨hreturn, hfeed⟩
    rw [List.flatMap_cons, List.append_assoc, line.splitLines_append hbreak, ih apart]
    rfl

theorem Writes.splitLines_eq {lines : List Text} {text : Text} (h : Writes lines text) :
    splitLines text = lines := by
  cases h with
  | ended front apart =>
    simpa [splitLines] using splitLines_flatMap_append apart Text.unbroken_nil
  | unended front apart last unbroken hne =>
    rw [splitLines_flatMap_append apart unbroken, splitLines_of_unbroken unbroken hne]

/-! ### Writing what was divided -/

theorem EndedLine.isChain_cons {line : EndedLine} {front : List EndedLine} {rest : Text}
    (hbreak : line.ending = .cr → (front.flatMap written ++ rest).head? ≠ some '\n')
    (apart : front.IsChain Precedes) : (line :: front).IsChain Precedes := by
  refine List.isChain_cons.mpr ⟨fun next hnext => ?_, apart⟩
  obtain ⟨front, rfl⟩ := List.head?_eq_some_iff.mp hnext
  rintro ⟨hreturn, hfeed⟩
  refine hbreak hreturn ?_
  rwa [List.flatMap_cons, List.append_assoc, next.head?_written_append]

/-- One more line is written in front. -/
theorem Writes.cons {lines : List Text} {text : Text} (h : Writes lines text) (line : EndedLine)
    (hbreak : line.ending = .cr → text.head? ≠ some '\n') :
    Writes (line.text :: lines) (line.written ++ text) := by
  cases h with
  | ended front apart =>
    rw [← List.append_nil (front.flatMap _)] at hbreak
    exact .ended (line :: front) (EndedLine.isChain_cons hbreak apart)
  | unended front apart last unbroken hne =>
    have hwritten := Writes.unended (line :: front) (EndedLine.isChain_cons hbreak apart) last
      unbroken hne
    rwa [List.flatMap_cons, List.append_assoc] at hwritten

/-- The line with one more character in front. -/
def EndedLine.extend (line : EndedLine) {c : Char} (hc : c ≠ '\r' ∧ c ≠ '\n') : EndedLine :=
  ⟨c :: line.text, line.ending, Text.unbroken_cons.mpr ⟨hc, line.unbroken⟩⟩

theorem EndedLine.isChain_extend {line : EndedLine} {front : List EndedLine} {c : Char}
    (hc : c ≠ '\r' ∧ c ≠ '\n') (apart : (line :: front).IsChain Precedes) :
    (line.extend hc :: front).IsChain Precedes := by
  rw [List.isChain_cons] at apart ⊢
  exact apart

/-- One more character is written in front of the first line. -/
theorem Writes.consFirst {lines : List Text} {text : Text} (h : Writes lines text) {c : Char}
    (hc : c ≠ '\r' ∧ c ≠ '\n') : Writes (Text.consFirst c lines) (c :: text) := by
  cases h with
  | ended front apart =>
    cases front with
    | nil =>
      exact .unended [] .nil [c] (Text.unbroken_cons.mpr ⟨hc, Text.unbroken_nil⟩)
        (List.cons_ne_nil c [])
    | cons line front =>
      exact .ended (line.extend hc :: front) (EndedLine.isChain_extend hc apart)
  | unended front apart last unbroken hne =>
    cases front with
    | nil =>
      exact .unended [] .nil (c :: last) (Text.unbroken_cons.mpr ⟨hc, unbroken⟩)
        (List.cons_ne_nil c last)
    | cons line front =>
      exact .unended (line.extend hc :: front) (EndedLine.isChain_extend hc apart) last unbroken hne

theorem writes_splitLines (text : Text) : Writes (splitLines text) text := by
  fun_induction splitLines text with
  | case1 => exact .ended [] .nil
  | case2 s ih => exact ih.cons ⟨[], .crlf, Text.unbroken_nil⟩ (by simp)
  | case3 s hs ih =>
    refine ih.cons ⟨[], .cr, Text.unbroken_nil⟩ fun _ hfeed => ?_
    obtain ⟨t, ht⟩ := List.head?_eq_some_iff.mp hfeed
    exact hs t ht
  | case4 s ih => exact ih.cons ⟨[], .lf, Text.unbroken_nil⟩ (by simp)
  | case5 c s _ hreturn hfeed ih => exact ih.consFirst ⟨hreturn, hfeed⟩

theorem Writes.unbroken_of_mem {lines : List Text} {text line : Text} (h : Writes lines text)
    (hline : line ∈ lines) : line.Unbroken := by
  cases h with
  | ended front apart =>
    obtain ⟨ended, -, rfl⟩ := List.mem_map.mp hline
    exact ended.unbroken
  | unended front apart last unbroken hne =>
    rcases List.mem_append.mp hline with hline | hline
    · obtain ⟨ended, -, rfl⟩ := List.mem_map.mp hline
      exact ended.unbroken
    · rwa [List.mem_singleton.mp hline]

/-! ### Other breaks -/

theorem Rebreaks.head?_ne {s t : Text} (h : Rebreaks s t) : t.head? ≠ some '\n' := by
  cases h with
  | nil => simp
  | cr rest => simp
  | crlf rest => simp
  | char hfeed rest => simpa using hfeed

/-- Other breaks do not change the lines of a text. -/
theorem Rebreaks.splitLines_eq {s t : Text} (h : Rebreaks s t) (hs : '\r' ∉ s) :
    splitLines t = splitLines s := by
  induction h with
  | nil => rfl
  | cr rest ih =>
    rw [splitLines_return rest.head?_ne, ih (List.not_mem_of_not_mem_cons hs)]
    rfl
  | crlf rest ih =>
    rw [splitLines, ih (List.not_mem_of_not_mem_cons hs)]
    rfl
  | @char c s t hfeed rest ih =>
    have hreturn : c ≠ '\r' := fun h => hs (h ▸ List.mem_cons_self)
    rw [splitLines_cons_of_ne hreturn hfeed, splitLines_cons_of_ne hreturn hfeed,
      ih (List.not_mem_of_not_mem_cons hs)]

/-- **Dividing a text into lines undoes writing them.** The lines of a text are those that it is
written with, for any choice of breaks, and every text is written with its lines, none of which
has a break in it. So a text with line feeds alone compiles to the same with carriage returns in
their place, whether or not line feeds follow these. -/
theorem splitLines_undoes_writing (text : Text) :
    (∀ lines, splitLines text = lines ↔ Writes lines text) ∧
      (∀ line ∈ splitLines text, '\r' ∉ line ∧ '\n' ∉ line) ∧
      ('\r' ∉ text → ∀ rebroken filename, Rebreaks text rebroken →
        compile rebroken filename = compile text filename) := by
  refine ⟨fun lines => ⟨?_, Writes.splitLines_eq⟩, fun line hline => ?_,
    fun htext rebroken filename h => ?_⟩
  · rintro rfl
    exact writes_splitLines text
  · exact (writes_splitLines text).unbroken_of_mem hline
  · rw [compile, compile, h.splitLines_eq htext]

/-- Two line feeds, written as a carriage return and as both characters. -/
theorem splitLines_undoes_writing_mixed :
    let text := "f\n\n  a".toList
    let rebroken := "f\r\r\n  a".toList
    '\r' ∉ text ∧ Rebreaks text rebroken ∧ compile rebroken [] = compile text [] ∧
      Writes ["f".toList, [], "  a".toList] rebroken := by
  intro text rebroken
  have htext : '\r' ∉ text := by decide
  have hrebreaks : Rebreaks text rebroken :=
    .char (by decide) <| .cr <| .crlf <| .char (by decide) <| .char (by decide) <|
      .char (by decide) .nil
  exact ⟨htext, hrebreaks, (splitLines_undoes_writing text).2.2 htext rebroken [] hrebreaks,
    ((splitLines_undoes_writing rebroken).1 _).mp (by decide)⟩

end Offside
