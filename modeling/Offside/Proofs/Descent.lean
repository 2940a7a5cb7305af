import Offside.Proofs.Reading

/-!
# Reading by descent

The nodes below a parent can also be read by a procedure that calls itself. It takes one line after
the other. A line that is wider than the parent becomes a child, and what is below it is read by the
procedure itself, from the place where the reader is. A line that belongs further out ends the call,
and the reader goes back by one line, so that the caller meets the line again. All calls share the
reader, so its place and its mark go from call to call, and a fault ends all of them.

`Descends r level result r'` says that a call of this procedure comes to an end: the reader `r`,
with `level` read so far, ends with `result` and leaves `r'`. A call goes back and forth, so its
end is not in sight from the lines that are left. It does end, from every reader and in one way
only: with the result of the reader that keeps open lines on a stack and meets every line once
(`descends_iff`). In one direction the stack is taken apart into calls that go on one after the
other (`Unwinds`), in the other a call is run on top of any stack (`Descends.reading_eq`).
-/

namespace Offside

/-! ### Meeting a line -/

namespace Reader

theorem next?_eq_some_iff {r r' : Reader} {line : Line} :
    r.next? = some (line, r') ↔ r.lines[r.pos]? = some line.text ∧ line.index = r.pos ∧
      r' = { r with pos := r.pos + 1 } := by
  rw [next?, Option.map_eq_some_iff]
  constructor
  · rintro ⟨text, htext, heq⟩
    obtain ⟨rfl, rfl⟩ := Prod.mk.inj heq
    exact ⟨htext, rfl, rfl⟩
  · rintro ⟨htext, hindex, rfl⟩
    refine ⟨line.text, htext, ?_⟩
    rw [← hindex]

theorem next?_eq_none_iff {r : Reader} : r.next? = none ↔ r.lines.length ≤ r.pos := by
  rw [next?, Option.map_eq_none_iff, List.getElem?_eq_none_iff]

/-- The next line is met: it is not skipped, and it is indented with the mark of the file. The
reader behind it has its mark settled. -/
structure Meets (r : Reader) (line : Line) (r' : Reader) : Prop where
  next : r.next? = some (line, { r with pos := r.pos + 1 })
  placed : line.skipped = false
  native : Indentation.foreign? r.mark line.indent = none
  eq : r' = { r with pos := r.pos + 1, mark := Indentation.settle r.mark line.indent }

end Reader

/-- A call of the procedure that reads the nodes of a level, of which some may be there. -/
inductive Descends : Reader → Level → Except Diagnostic (List Node) → Reader → Prop
  /-- There are no lines left. -/
  | finished {r : Reader} {level : Level} (none : r.next? = none) :
      Descends r level (.ok level.toList) r
  | skipped {r r' r'' : Reader} {line : Line} {level : Level}
      {result : Except Diagnostic (List Node)} (next : r.next? = some (line, r'))
      (skipped : line.skipped = true) (rest : Descends r' level result r'') :
      Descends r level result r''
  | mixed {r r' : Reader} {line : Line} {level : Level} {offset : Nat}
      (next : r.next? = some (line, r')) (placed : line.skipped = false)
      (foreign : Indentation.foreign? r.mark line.indent = some offset) :
      Descends r level (.error (line.diagnose r.filename .mixedIndentation offset))
        { r' with mark := Indentation.settle r.mark line.indent }
  | misaligned {r r' : Reader} {line : Line} {level : Level} (meets : r.Meets line r')
      (wider : level.parent < line.width)
      (other : level.childWidth.all (· == line.width) = false) :
      Descends r level (.error (line.diagnose r.filename .inconsistentIndentation line.width)) r'
  | mismatched {r r' : Reader} {line : Line} {level : Level} {e : Group.Mismatch}
      (meets : r.Meets line r') (wider : level.parent < line.width)
      (aligned : level.childWidth.all (· == line.width) = true)
      (count : Token.count line.content = .error e) :
      Descends r level
        (.error (line.diagnose r.filename .mismatchedParentheses (line.width + e.offset))) r'
  /-- A child is read with all that is below it, and then the lines behind it. -/
  | nested {r r' r₁ r₂ : Reader} {line : Line} {level : Level} {tokens : Nat} {children : List Node}
      {result : Except Diagnostic (List Node)} (meets : r.Meets line r')
      (wider : level.parent < line.width)
      (aligned : level.childWidth.all (· == line.width) = true)
      (count : Token.count line.content = .ok tokens)
      (inner : Descends r' (.under line.width) (.ok children) r₁)
      (rest : Descends r₁
        (Level.add { level with childWidth := some line.width } (.subtree line tokens children))
        result r₂) :
      Descends r level result r₂
  /-- There is a fault below a child. -/
  | failed {r r' r₁ : Reader} {line : Line} {level : Level} {tokens : Nat} {e : Diagnostic}
      (meets : r.Meets line r') (wider : level.parent < line.width)
      (aligned : level.childWidth.all (· == line.width) = true)
      (count : Token.count line.content = .ok tokens)
      (inner : Descends r' (.under line.width) (.error e) r₁) :
      Descends r level (.error e) r₁
  | continued {r r' r'' : Reader} {line : Line} {level : Level}
      {result : Except Diagnostic (List Node)} (meets : r.Meets line r')
      (continues : line.continues level.parent = true)
      (rest : Descends r' (level.add (line.continuation r'.mark)) result r'') :
      Descends r level result r''
  /-- The line is not for this call, which goes back in front of it. -/
  | outside {r r' : Reader} {line : Line} {level : Level} (meets : r.Meets line r')
      (narrower : ¬ level.parent < line.width) (other : line.continues level.parent = false) :
      Descends r level (.ok level.toList) r'.unread

/-! ### What happens to the reader -/

/-- A reader goes on in its file: it does not go back or beyond the end, and it keeps its mark. -/
structure Reader.Advances (r r' : Reader) : Prop where
  filename_eq : r'.filename = r.filename
  lines_eq : r'.lines = r.lines
  pos_le : r.pos ≤ r'.pos
  bounded : r.pos ≤ r.lines.length → r'.pos ≤ r.lines.length
  mark_eq : ∀ mark, r.mark = some mark → r'.mark = some mark

namespace Reader

variable {r r' r'' : Reader} {line : Line}

theorem Advances.refl (r : Reader) : r.Advances r := ⟨rfl, rfl, Nat.le_refl _, id, fun _ => id⟩

theorem Advances.trans (h : r.Advances r') (h' : r'.Advances r'') : r.Advances r'' where
  filename_eq := h'.filename_eq.trans h.filename_eq
  lines_eq := h'.lines_eq.trans h.lines_eq
  pos_le := Nat.le_trans h.pos_le h'.pos_le
  bounded hpos := by
    have hpos' := h.bounded hpos
    rw [← h.lines_eq] at hpos' ⊢
    exact h'.bounded hpos'
  mark_eq mark hmark := h'.mark_eq mark (h.mark_eq mark hmark)

theorem pos_lt_of_next? (h : r.next? = some (line, r')) : r.pos < r.lines.length := by
  obtain ⟨htext, -, -⟩ := next?_eq_some_iff.mp h
  exact (List.getElem?_eq_some_iff.mp htext).1

theorem advances_of_next? (h : r.next? = some (line, r')) : r.Advances r' := by
  have hlt := pos_lt_of_next? h
  obtain ⟨-, -, rfl⟩ := next?_eq_some_iff.mp h
  exact ⟨rfl, rfl, Nat.le_succ _, fun _ => hlt, fun _ => id⟩

/-- A mark that is settled is not changed any more. -/
theorem Advances.settle (h : r.Advances r') (indent : Text) :
    r.Advances { r' with mark := Indentation.settle r.mark indent } := by
  refine ⟨h.filename_eq, h.lines_eq, h.pos_le, h.bounded, fun mark hmark => ?_⟩
  rw [hmark]
  rfl

theorem Meets.advances (h : r.Meets line r') : r.Advances r' := by
  rw [h.eq]
  exact (advances_of_next? h.next).settle line.indent

/-- In front of a line that was put back, the reader is where it was. -/
theorem Meets.advances_unread (h : r.Meets line r') : r.Advances r'.unread := by
  rw [h.eq]
  exact (Advances.refl r).settle line.indent

end Reader

theorem Descends.advances {r r' : Reader} {level : Level} {result : Except Diagnostic (List Node)}
    (h : Descends r level result r') : r.Advances r' := by
  induction h with
  | finished => exact .refl _
  | skipped next _ _ ih => exact (Reader.advances_of_next? next).trans ih
  | mixed next => exact (Reader.advances_of_next? next).settle _
  | misaligned meets => exact meets.advances
  | mismatched meets => exact meets.advances
  | nested meets _ _ _ _ _ inner rest => exact meets.advances.trans (inner.trans rest)
  | failed meets _ _ _ _ inner => exact meets.advances.trans inner
  | continued meets _ _ rest => exact meets.advances.trans rest
  | outside meets => exact meets.advances_unread

/-! ### The four ways to go on -/

namespace Indentation

variable (mark : Option Char) (indent : Text)

theorem settle_settle : settle (settle mark indent) indent = settle mark indent := by
  rcases mark with _ | m
  · rcases indent with _ | ⟨c, indent⟩ <;> rfl
  · rfl

theorem foreign?_settle : foreign? (settle mark indent) indent = foreign? mark indent := by
  rw [foreign?, settle_settle, foreign?]

end Indentation

namespace Reader

/-- What the reader reads into the open levels. -/
def reading (r : Reader) (level : Level) (above : List OpenLine) : Reading :=
  Reading.of r.filename r.pos r.mark level above (r.lines.drop r.pos)

/-- The reader after reading. -/
def after (r : Reader) (reading : Reading) : Reader :=
  { r with pos := reading.pos, mark := reading.mark }

theorem collect_eq (r : Reader) (parent : Int) :
    r.collect parent =
      ((r.reading (.under parent) []).result, r.after (r.reading (.under parent) [])) :=
  rfl

variable {r r' : Reader} {line : Line}

theorem Advances.after_eq (h : r.Advances r') (reading : Reading) :
    r'.after reading = r.after reading := by
  rw [after, h.filename_eq, h.lines_eq, after]

/-- The reader behind a line is where a reading that ends there leaves it. -/
theorem Meets.after_self (h : r.Meets line r') (result : Except Diagnostic (List Node)) :
    r.after ⟨result, r'.pos, r'.mark⟩ = r' := by
  rw [h.eq, after]

theorem Meets.after_unread (h : r.Meets line r') (result : Except Diagnostic (List Node)) :
    r.after ⟨result, r'.unread.pos, r'.unread.mark⟩ = r'.unread := by
  rw [h.eq, after, unread]

/-- Behind a line, fewer lines are left. -/
theorem left_lt_of_next? (h : r.next? = some (line, r')) :
    r'.lines.length - r'.pos < r.lines.length - r.pos := by
  have hlt := pos_lt_of_next? h
  obtain ⟨-, -, rfl⟩ := next?_eq_some_iff.mp h
  simp only
  omega

theorem Meets.left_lt (h : r.Meets line r') :
    r'.lines.length - r'.pos < r.lines.length - r.pos := by
  have hlt := left_lt_of_next? h.next
  rw [h.eq]
  exact hlt

theorem reading_of_next?_eq_none (h : r.next? = none) (level : Level) (above : List OpenLine) :
    r.reading level above = ⟨.ok (level.closeAll above).toList, r.pos, r.mark⟩ := by
  rw [reading, List.drop_eq_nil_of_le (next?_eq_none_iff.mp h), Reading.of]

theorem drop_of_next? (h : r.next? = some (line, r')) :
    r.lines.drop r.pos = line.text :: r'.lines.drop r'.pos := by
  obtain ⟨htext, -, rfl⟩ := next?_eq_some_iff.mp h
  obtain ⟨hlt, heq⟩ := List.getElem?_eq_some_iff.mp htext
  rw [List.drop_eq_getElem_cons hlt, heq]

theorem reading_of_skipped (h : r.next? = some (line, r')) (hs : line.skipped = true)
    (level : Level) (above : List OpenLine) : r.reading level above = r'.reading level above := by
  have hdrop := drop_of_next? h
  obtain ⟨-, -, rfl⟩ := next?_eq_some_iff.mp h
  have hskipped : (⟨line.text, r.pos⟩ : Line).skipped = true := hs
  rw [reading, hdrop, Reading.of]
  simp only [hskipped, if_true]
  rfl

theorem reading_of_mixed {offset : Nat} (h : r.next? = some (line, r'))
    (hs : line.skipped = false)
    (hforeign : Indentation.foreign? r.mark line.indent = some offset) (level : Level)
    (above : List OpenLine) :
    r.reading level above = ⟨.error (line.diagnose r.filename .mixedIndentation offset), r'.pos,
      Indentation.settle r.mark line.indent⟩ := by
  have hdrop := drop_of_next? h
  obtain ⟨-, hindex, rfl⟩ := next?_eq_some_iff.mp h
  obtain ⟨text, index⟩ := line
  obtain rfl : index = r.pos := hindex
  rw [reading, hdrop, Reading.of]
  simp only [hs, Bool.false_eq_true, if_false, hforeign]

theorem Meets.reading_eq (h : r.Meets line r') (level : Level) (above : List OpenLine) :
    r.reading level above =
      match level.place r'.mark line above with
      | .placed level above => r'.reading level above
      | .outside level => ⟨.ok level.toList, r'.unread.pos, r'.unread.mark⟩
      | .refused fault offset =>
        ⟨.error (line.diagnose r.filename fault offset), r'.pos, r'.mark⟩ := by
  have hdrop := drop_of_next? h.next
  obtain ⟨-, hindex, -⟩ := next?_eq_some_iff.mp h.next
  have hs := h.placed
  have hnative := h.native
  obtain ⟨text, index⟩ := line
  obtain rfl : index = r.pos := hindex
  rw [h.eq, reading, hdrop, Reading.of]
  simp only [hs, Bool.false_eq_true, if_false, hnative]
  rfl

/-- There is no line left, or the next one is skipped, at fault for its indentation, or met. -/
theorem next_cases (r : Reader) :
    r.next? = none ∨ ∃ line r', r.next? = some (line, r') ∧
      (line.skipped = true ∨
        (line.skipped = false ∧
          ∃ offset, Indentation.foreign? r.mark line.indent = some offset) ∨
        ∃ r'', r.Meets line r'') := by
  rcases hnext : r.next? with _ | ⟨line, r'⟩
  · exact .inl rfl
  · refine .inr ⟨line, r', rfl, ?_⟩
    rcases hs : line.skipped with _ | _
    · rcases hforeign : Indentation.foreign? r.mark line.indent with _ | offset
      · obtain ⟨-, -, rfl⟩ := next?_eq_some_iff.mp hnext
        exact .inr (.inr ⟨_, hnext, hs, hforeign, rfl⟩)
      · exact .inr (.inl ⟨rfl, offset, rfl⟩)
    · exact .inl rfl

/-- Behind a line that was put back, the next line is that line. -/
theorem Meets.again (h : r.Meets line r') : r'.unread.Meets line r' := by
  obtain ⟨hnext, hplaced, hnative, rfl⟩ := h
  refine ⟨?_, hplaced, ?_, ?_⟩
  · obtain ⟨htext, hindex, -⟩ := next?_eq_some_iff.mp hnext
    exact next?_eq_some_iff.mpr ⟨htext, hindex, rfl⟩
  · rw [unread, Indentation.foreign?_settle, hnative]
  · simp only [unread, Nat.add_sub_cancel, Indentation.settle_settle]

end Reader

/-! ### The stack taken apart -/

/-- The calls for a level and for the open lines above it, one after the other: when one of them
ends, its nodes are those of the open line, and the next goes on. -/
inductive Unwinds :
    Reader → Level → List OpenLine → Except Diagnostic (List Node) → Reader → Prop
  | last {r r' : Reader} {level : Level} {result : Except Diagnostic (List Node)}
      (descends : Descends r level result r') : Unwinds r level [] result r'
  | closed {r r₁ r₂ : Reader} {level : Level} {opened : OpenLine} {above : List OpenLine}
      {nodes : List Node} {result : Except Diagnostic (List Node)}
      (descends : Descends r level (.ok nodes) r₁)
      (rest : Unwinds r₁ (opened.outer.add (.subtree opened.line opened.tokens nodes)) above
        result r₂) :
      Unwinds r level (opened :: above) result r₂
  | failed {r r' : Reader} {level : Level} {opened : OpenLine} {above : List OpenLine}
      {e : Diagnostic} (descends : Descends r level (.error e) r') :
      Unwinds r level (opened :: above) (.error e) r'

namespace Unwinds

variable {r r' r₂ : Reader} {line : Line} {level level' : Level} {above : List OpenLine}
  {result : Except Diagnostic (List Node)}

/-- What the first call does at its beginning, it does before the others go on. -/
theorem first (h : Unwinds r' level' above result r₂)
    (hstep : ∀ result r₁, Descends r' level' result r₁ → Descends r level result r₁) :
    Unwinds r level above result r₂ := by
  rcases h with descends | ⟨descends, rest⟩ | descends
  · exact .last (hstep _ _ descends)
  · exact .closed (hstep _ _ descends) rest
  · exact .failed (hstep _ _ descends)

theorem of_error {e : Diagnostic} (h : Descends r level (.error e) r') (above : List OpenLine) :
    Unwinds r level above (.error e) r' := by
  rcases above with _ | ⟨opened, above⟩
  · exact .last h
  · exact .failed h

/-- At the end of the file all calls end. -/
theorem of_next?_eq_none (h : r.next? = none) (level : Level) (above : List OpenLine) :
    Unwinds r level above (.ok (level.closeAll above).toList) r := by
  induction above generalizing level with
  | nil => exact .last (.finished h)
  | cons opened above ih => exact .closed (.finished h) (ih (opened.close level))

/-- A call for what is below a child belongs to the call that meets the child. -/
theorem of_nest {tokens : Nat} (meets : r.Meets line r') (wider : level.parent < line.width)
    (aligned : level.childWidth.all (· == line.width) = true)
    (count : Token.count line.content = .ok tokens)
    (h : Unwinds r' (.under line.width)
      (⟨line, tokens, { level with childWidth := some line.width }⟩ :: above) result r₂) :
    Unwinds r level above result r₂ := by
  rcases h with _ | ⟨inner, rest⟩ | inner
  · exact rest.first fun _ _ => .nested meets wider aligned count inner
  · exact of_error (.failed meets wider aligned count inner) above

end Unwinds

/-- A line that belongs further out closes the level. -/
theorem Level.place_of_not_lt {level : Level} {line : Line}
    (narrower : ¬ level.parent < line.width) (other : line.continues level.parent = false)
    (mark : Option Char) (above : List OpenLine) :
    level.place mark line above =
      match above with
      | [] => .outside level
      | opened :: above => (opened.close level).place mark line above := by
  rcases above with _ | ⟨opened, above⟩
  · rw [Level.place, if_neg narrower, if_neg (Bool.eq_false_iff.mp other)]
  · rw [Level.place, if_neg narrower, if_neg (Bool.eq_false_iff.mp other)]

/-- What a placement of a line means for the calls: the line is in the hands of the call that it
belongs to, and the calls further in have ended. -/
def Placement.Unwound (r r' : Reader) (line : Line) (level : Level) (above : List OpenLine) :
    Placement → Prop
  | .placed level' above' =>
    ∀ result r₂, Unwinds r' level' above' result r₂ → Unwinds r level above result r₂
  | .outside inner => Unwinds r level above (.ok inner.toList) r'.unread
  | .refused fault offset =>
    Unwinds r level above (.error (line.diagnose r.filename fault offset)) r'

theorem Level.unwound_nest {r r' : Reader} {line : Line} {level : Level} (meets : r.Meets line r')
    (wider : level.parent < line.width) (above : List OpenLine) :
    (level.nest above line).Unwound r r' line level above := by
  rw [Level.nest]
  split
  · next aligned =>
    split
    · next count => exact fun _ _ => Unwinds.of_nest meets wider aligned count
    · next count => exact Unwinds.of_error (.mismatched meets wider aligned count) above
  · next other =>
    exact Unwinds.of_error (.misaligned meets wider (Bool.eq_false_iff.mpr other)) above

/-- The line goes from call to call, from the inside, up to the one it belongs to. -/
theorem Level.unwound_place (level : Level) {r r' : Reader} {line : Line} (meets : r.Meets line r')
    (above : List OpenLine) :
    (level.place r'.mark line above).Unwound r r' line level above := by
  fun_induction Level.place r'.mark line level above generalizing r with
  | case1 level above wider => exact Level.unwound_nest meets wider above
  | case2 level above narrower continues =>
    exact fun _ _ h => h.first fun _ _ => .continued meets continues
  | case3 level narrower other =>
    exact .last (.outside meets narrower (Bool.eq_false_iff.mpr other))
  | case4 level narrower other opened above ih =>
    -- the innermost call ends in front of the line, and the next one out meets it again
    have hends : Descends r level (.ok level.toList) r'.unread :=
      .outside meets narrower (Bool.eq_false_iff.mpr other)
    have hfilename : r'.unread.filename = r.filename := meets.advances_unread.filename_eq
    have hrest := ih meets.again
    rcases hplace : (opened.close level).place r'.mark line above with
      ⟨level', above'⟩ | inner | ⟨fault, offset⟩
    · rw [hplace] at hrest
      exact fun result r₂ h => .closed hends (hrest result r₂ h)
    · rw [hplace] at hrest
      exact .closed hends hrest
    · rw [hplace, Placement.Unwound, hfilename] at hrest
      exact .closed hends hrest

/-- The calls come to an end, with what the reader reads. -/
theorem unwinds_reading (r : Reader) (level : Level) (above : List OpenLine) :
    Unwinds r level above (r.reading level above).result (r.after (r.reading level above)) := by
  -- a line is met again only while a call ends, so the induction is on the lines that are left
  induction hleft : r.lines.length - r.pos using Nat.strongRecOn generalizing r level above with
  | ind left ih =>
    rcases r.next_cases with hnone | ⟨line, r', hnext, hs | ⟨hs, offset, hforeign⟩ | ⟨r'', hmeets⟩⟩
    · rw [Reader.reading_of_next?_eq_none hnone]
      exact .of_next?_eq_none hnone level above
    · have hfewer := Reader.left_lt_of_next? hnext
      have hrest := ih _ (hleft ▸ hfewer) r' level above rfl
      rw [(Reader.advances_of_next? hnext).after_eq] at hrest
      rw [Reader.reading_of_skipped hnext hs]
      exact hrest.first fun _ _ => .skipped hnext hs
    · have hmixed : Descends r level _ _ := .mixed hnext hs hforeign
      obtain ⟨-, -, rfl⟩ := Reader.next?_eq_some_iff.mp hnext
      rw [Reader.reading_of_mixed hnext hs hforeign]
      exact .of_error hmixed above
    · have hfewer := hmeets.left_lt
      have hplace := level.unwound_place hmeets above
      rw [hmeets.reading_eq]
      rcases hp : level.place r''.mark line above with ⟨level', above'⟩ | inner | ⟨fault, offset⟩
      · have hrest := ih _ (hleft ▸ hfewer) r'' level' above' rfl
        rw [hmeets.advances.after_eq] at hrest
        rw [hp] at hplace
        exact hplace _ _ hrest
      · rw [hp, Placement.Unwound] at hplace
        rwa [hmeets.after_unread]
      · rw [hp, Placement.Unwound] at hplace
        rwa [hmeets.after_self]

/-! ### Calls on top of a stack -/

/-- How reading goes on behind a call, with the open lines above it. -/
def Reader.resume (r : Reader) : Except Diagnostic (List Node) → List OpenLine → Reading
  | .error e, _ => ⟨.error e, r.pos, r.mark⟩
  | .ok nodes, [] => ⟨.ok nodes, r.pos, r.mark⟩
  | .ok nodes, opened :: above =>
    r.reading (opened.outer.add (.subtree opened.line opened.tokens nodes)) above

/-- A call reads what the reader reads, on top of whatever lines are open. -/
theorem Descends.reading_eq {r r' : Reader} {level : Level}
    {result : Except Diagnostic (List Node)} (h : Descends r level result r')
    (above : List OpenLine) : r.reading level above = r'.resume result above := by
  induction h generalizing above with
  | @finished r level hnone =>
    rw [Reader.reading_of_next?_eq_none hnone]
    rcases above with _ | ⟨opened, above⟩
    · rfl
    · exact (Reader.reading_of_next?_eq_none hnone (opened.close level) above).symm
  | skipped next hs _ ih =>
    rw [Reader.reading_of_skipped next hs, ih]
  | mixed next hs foreign =>
    rw [Reader.reading_of_mixed next hs foreign]
    rfl
  | misaligned meets wider other =>
    rw [meets.reading_eq, Level.place_of_lt wider, Level.nest, if_neg (by simp [other])]
    rfl
  | mismatched meets wider aligned count =>
    rw [meets.reading_eq, Level.place_of_lt wider, Level.nest, if_pos aligned, count]
    rfl
  | nested meets wider aligned count _ _ inner rest =>
    rw [meets.reading_eq, Level.place_of_lt wider, Level.nest, if_pos aligned, count]
    exact (inner _).trans (rest above)
  | failed meets wider aligned count _ inner =>
    rw [meets.reading_eq, Level.place_of_lt wider, Level.nest, if_pos aligned, count]
    exact inner _
  | continued meets continues _ ih =>
    rw [meets.reading_eq, Level.place_of_continues continues]
    exact ih above
  | @outside r r' line level meets narrower other =>
    rw [meets.reading_eq, Level.place_of_not_lt narrower other]
    rcases above with _ | ⟨opened, above⟩
    · rfl
    · rw [Reader.resume, meets.again.reading_eq, meets.advances_unread.filename_eq]
      rfl

/-- **A call comes to an end in exactly one way**, which is what the reader collects. -/
theorem descends_iff {r r' : Reader} {parent : Int} {result : Except Diagnostic (List Node)} :
    Descends r (.under parent) result r' ↔ r.collect parent = (result, r') := by
  constructor
  · intro h
    have hreading : r.reading (.under parent) [] = ⟨result, r'.pos, r'.mark⟩ := by
      rw [h.reading_eq]
      rcases result <;> rfl
    obtain ⟨hfilename, hlines, -, -, -⟩ := h.advances
    rw [Reader.collect_eq, hreading, Reader.after, ← hfilename, ← hlines]
  · intro h
    have hunwinds := unwinds_reading r (.under parent) []
    rw [Reader.collect_eq] at h
    obtain ⟨hresult, hafter⟩ := Prod.mk.inj h
    rw [hresult, hafter] at hunwinds
    rcases hunwinds with ⟨hdescends⟩
    exact hdescends

end Offside
