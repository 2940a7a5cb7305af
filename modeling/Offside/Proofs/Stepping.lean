import Offside.Proofs.Descent

/-!
# Stepping a reader

A reader can be asked for one thing after the other, also after it has failed. Whatever it is
asked for, its place stays within the file, and only going back by one line lowers it. The
indentation mark stays what it is once there is one. A step that fails leaves the reader right
behind the line at fault, which it was in front of. Where nodes were collected, the reader stands
at the end of the file or in front of a line that does not belong to them (`steps_behave`).

What a step does is said by descent (`Takes`), so every step ends, and the facts about steps are
facts about calls, each by induction on the call. A run is a list of steps. That its place and its
mark are in order is carried from step to step.
-/

namespace Offside

/-! ### What a call leaves behind -/

namespace Reader

variable {r r' r₁ : Reader} {line : Line}

/-- The reader behind a line stands at the number of the line. -/
theorem number_eq_pos (h : r.next? = some (line, r')) :
    line.number = r'.pos ∧ r.pos < r'.pos := by
  obtain ⟨-, hindex, rfl⟩ := next?_eq_some_iff.mp h
  rw [Line.number, hindex]
  exact ⟨by push_cast; rfl, Nat.lt_succ_self _⟩

theorem Meets.number_eq_pos (h : r.Meets line r') : line.number = r'.pos ∧ r.pos < r'.pos := by
  have hnumber := Reader.number_eq_pos h.next
  rw [h.eq]
  exact hnumber

/-- What is behind a later place is behind an earlier one. -/
theorem Advances.eq_and_lt {number : Int} (h : r.Advances r₁)
    (hlater : number = r'.pos ∧ r₁.pos < r'.pos) : number = r'.pos ∧ r.pos < r'.pos :=
  ⟨hlater.1, Nat.lt_of_le_of_lt h.pos_le hlater.2⟩

/-- The reader stands at the end of the file, or in front of a line that is no child of a parent
of the given width and does not continue it. -/
def StopsFor (r : Reader) (parent : Int) : Prop :=
  r.lines.length ≤ r.pos ∨ ∃ line : Line, line.index = r.pos ∧ r.lines[r.pos]? = some line.text ∧
    line.skipped = false ∧ line.width ≤ parent ∧ ¬ (line.width = parent ∧ line.HasPipe)

theorem Meets.stopsFor_unread {parent : Int} (h : r.Meets line r')
    (narrower : ¬ parent < line.width) (other : line.continues parent = false) :
    r'.unread.StopsFor parent := by
  obtain ⟨htext, hindex, -⟩ := next?_eq_some_iff.mp h.again.next
  have hcontinues := Line.continues_eq_false_iff.mp other
  exact .inr ⟨line, hindex, htext, h.placed, Int.not_lt.mp narrower, not_and.mpr hcontinues⟩

end Reader

namespace Descends

variable {r r' : Reader} {level : Level} {result : Except Diagnostic (List Node)}

/-- A fault leaves the reader behind the line at fault. -/
theorem line_eq_pos (h : Descends r level result r') :
    ∀ e, result = .error e → e.line = r'.pos ∧ r.pos < r'.pos := by
  induction h with
  | finished => simp
  | skipped next _ _ ih => exact fun e he => (Reader.advances_of_next? next).eq_and_lt (ih e he)
  | mixed next =>
    have hnumber := Reader.number_eq_pos next
    rintro _ ⟨⟩
    exact hnumber
  | misaligned meets =>
    rintro _ ⟨⟩
    exact meets.number_eq_pos
  | mismatched meets =>
    rintro _ ⟨⟩
    exact meets.number_eq_pos
  | nested meets _ _ _ inner _ _ ih =>
    exact fun e he => (meets.advances.trans inner.advances).eq_and_lt (ih e he)
  | failed meets _ _ _ _ ih => exact fun e he => meets.advances.eq_and_lt (ih e he)
  | continued meets _ _ ih => exact fun e he => meets.advances.eq_and_lt (ih e he)
  | outside => simp

/-- A call that returns has come to a line that is not for it. -/
theorem stopsFor (h : Descends r level result r') :
    ∀ nodes, result = .ok nodes → r'.StopsFor level.parent := by
  induction h with
  | finished none => exact fun _ _ => .inl (Reader.next?_eq_none_iff.mp none)
  | skipped _ _ _ ih => exact ih
  | mixed => simp
  | misaligned => simp
  | mismatched => simp
  | nested _ _ _ _ _ _ _ ih => exact ih
  | failed => simp
  | continued _ _ _ ih => exact ih
  | outside meets narrower other => exact fun _ _ => meets.stopsFor_unread narrower other

/-- Below a parent that no line is as narrow as, there are no continuations. -/
theorem isSubtree (h : Descends r level result r') (hparent : level.parent < 0)
    (hlevel : ∀ node ∈ level.nodes, node.IsSubtree) :
    ∀ nodes, result = .ok nodes → ∀ node ∈ nodes, node.IsSubtree := by
  have hread (level : Level) (hlevel : ∀ node ∈ level.nodes, node.IsSubtree) :
      ∀ nodes, (.ok level.toList : Except Diagnostic (List Node)) = .ok nodes →
        ∀ node ∈ nodes, node.IsSubtree := by
    rintro _ ⟨⟩ node hnode
    exact hlevel node (List.mem_reverse.mp hnode)
  induction h with
  | finished => exact hread _ hlevel
  | skipped _ _ _ ih => exact ih hparent hlevel
  | mixed => simp
  | misaligned => simp
  | mismatched => simp
  | nested _ _ _ _ _ _ _ ih =>
    refine ih hparent fun node hnode => ?_
    rcases List.mem_cons.mp hnode with rfl | hnode
    · trivial
    · exact hlevel node hnode
  | failed => simp
  | continued _ continues =>
    have hwidth := (Line.continues_iff.mp continues).1
    omega
  | outside => exact hread _ hlevel

end Descends

/-! ### Steps -/

namespace Reader

/-- Whether a step begins by taking the next line. -/
def Step.takesLine : Step → Bool
  | .next | .subtree | .continuation => true
  | .unread | .collect _ | .document => false

/-- What a step comes to, where nodes are read by descent. -/
inductive Takes (r : Reader) : Step → Answer → Reader → Prop
  | atEnd {s : Step} (takesLine : s.takesLine = true) (none : r.next? = none) :
      Takes r s .nothing r
  | next {line : Line} {r' : Reader} (next : r.next? = some (line, r')) :
      Takes r .next (.line line) r'
  | unread : Takes r .unread .nothing r.unread
  | collect {parent : Int} {result : Except Diagnostic (List Node)} {r' : Reader}
      (descends : Descends r (.under parent) result r') :
      Takes r (.collect parent) (.ofResult id result) r'
  | mismatched {line : Line} {r' : Reader} {e : Group.Mismatch}
      (next : r.next? = some (line, r')) (count : Token.count line.content = .error e) :
      Takes r .subtree
        (.failed (line.diagnose r.filename .mismatchedParentheses (line.width + e.offset))) r'
  | subtree {line : Line} {r' r'' : Reader} {tokens : Nat} {result : Except Diagnostic (List Node)}
      (next : r.next? = some (line, r')) (count : Token.count line.content = .ok tokens)
      (descends : Descends r' (.under line.width) result r'') :
      Takes r .subtree (.ofResult (fun children => [.subtree line tokens children]) result) r''
  | continuation {line : Line} {r' : Reader} (next : r.next? = some (line, r')) :
      Takes r .continuation (.nodes [line.continuation r.mark]) r'
  | document {result : Except Diagnostic (List Node)} {r' : Reader}
      (descends : Descends r (.under rootWidth) result r') :
      Takes r .document (.ofResult id result) r'

theorem Answer.ofResult_map {α β : Type} (nodes : β → List Node) (f : α → β)
    (result : Except Diagnostic α) :
    ofResult nodes (result.map f) = ofResult (fun a => nodes (f a)) result := by
  rcases result <;> rfl

/-- What a step comes to is what the reader answers. -/
theorem Takes.step_eq {r r' : Reader} {s : Step} {answer : Answer} (h : r.Takes s answer r') :
    r.step s = (answer, r') := by
  cases h with
  | atEnd takesLine none => rcases s <;> simp_all [step, Step.takesLine]
  | next next => simp only [step, next]
  | unread => rfl
  | collect descends => simp only [step, descends_iff.mp descends]
  | mismatched next count =>
    obtain ⟨-, -, rfl⟩ := next?_eq_some_iff.mp next
    simp only [step, next, Reader.subtree, count, Answer.ofResult]
  | subtree next count descends =>
    simp only [step, next, Reader.subtree, count, descends_iff.mp descends, Answer.ofResult_map]
  | continuation next =>
    obtain ⟨-, -, rfl⟩ := next?_eq_some_iff.mp next
    simp only [step, next]
  | document descends =>
    simp only [step, Reader.document, descends_iff.mp descends, Answer.ofResult_map]
    rfl

/-- Every step comes to something. -/
theorem takes_step (r : Reader) (s : Step) : r.Takes s (r.step s).1 (r.step s).2 := by
  have hdescends (r : Reader) (parent : Int) :
      Descends r (.under parent) (r.collect parent).1 (r.collect parent).2 := descends_iff.mpr rfl
  have hexists : ∃ answer r', r.Takes s answer r' := by
    rcases hnext : r.next? with _ | ⟨line, r'⟩
    · rcases s with _ | _ | parent | _ | _ | _
      · exact ⟨_, _, .atEnd rfl hnext⟩
      · exact ⟨_, _, .unread⟩
      · exact ⟨_, _, .collect (hdescends r parent)⟩
      · exact ⟨_, _, .atEnd rfl hnext⟩
      · exact ⟨_, _, .atEnd rfl hnext⟩
      · exact ⟨_, _, .document (hdescends r rootWidth)⟩
    · rcases s with _ | _ | parent | _ | _ | _
      · exact ⟨_, _, .next hnext⟩
      · exact ⟨_, _, .unread⟩
      · exact ⟨_, _, .collect (hdescends r parent)⟩
      · rcases hcount : Token.count line.content with e | tokens
        · exact ⟨_, _, .mismatched hnext hcount⟩
        · exact ⟨_, _, .subtree hnext hcount (hdescends r' line.width)⟩
      · exact ⟨_, _, .continuation hnext⟩
      · exact ⟨_, _, .document (hdescends r rootWidth)⟩
  obtain ⟨answer, r', htakes⟩ := hexists
  rw [htakes.step_eq]
  exact htakes

theorem takes_iff {r r' : Reader} {s : Step} {answer : Answer} :
    r.Takes s answer r' ↔ r.step s = (answer, r') := by
  refine ⟨Takes.step_eq, fun h => ?_⟩
  have htakes := r.takes_step s
  rwa [h] at htakes

/-! ### What a step leaves behind -/

theorem Answer.eq_error_of_ofResult {α : Type} {nodes : α → List Node}
    {result : Except Diagnostic α} {e : Diagnostic} (h : ofResult nodes result = .failed e) :
    result = .error e := by
  rcases result with d | a
  · rw [Answer.failed.inj h]
  · simp [ofResult] at h

theorem Answer.exists_of_ofResult {α : Type} {nodes : α → List Node} {result : Except Diagnostic α}
    {found : List Node} (h : ofResult nodes result = .nodes found) :
    ∃ a, result = .ok a ∧ nodes a = found := by
  rcases result with d | a
  · simp [ofResult] at h
  · exact ⟨a, rfl, Answer.nodes.inj h⟩

namespace Takes

variable {r r' : Reader} {s : Step} {answer : Answer}

/-- Every step but one goes on in the file. -/
theorem advances (h : r.Takes s answer r') (hs : s ≠ .unread) : r.Advances r' := by
  cases h with
  | atEnd => exact .refl r
  | next next => exact advances_of_next? next
  | unread => exact absurd rfl hs
  | collect descends => exact descends.advances
  | mismatched next => exact advances_of_next? next
  | subtree next _ descends => exact (advances_of_next? next).trans descends.advances
  | continuation next => exact advances_of_next? next
  | document descends => exact descends.advances

/-- A step that fails leaves the reader behind the line at fault. -/
theorem line_eq_pos {e : Diagnostic} (h : r.Takes s (.failed e) r') :
    e.line = r'.pos ∧ r.pos < r'.pos := by
  generalize hanswer : Answer.failed e = answer at h
  cases h with
  | atEnd => simp at hanswer
  | next => simp at hanswer
  | unread => simp at hanswer
  | collect descends => exact descends.line_eq_pos e (Answer.eq_error_of_ofResult hanswer.symm)
  | mismatched next =>
    rw [Answer.failed.inj hanswer]
    exact number_eq_pos next
  | subtree next _ descends =>
    have hline := descends.line_eq_pos e (Answer.eq_error_of_ofResult hanswer.symm)
    exact (advances_of_next? next).eq_and_lt hline
  | continuation => simp at hanswer
  | document descends => exact descends.line_eq_pos e (Answer.eq_error_of_ofResult hanswer.symm)

theorem stopsFor {parent : Int} {nodes : List Node}
    (h : r.Takes (.collect parent) (.nodes nodes) r') : r'.StopsFor parent := by
  generalize hanswer : Answer.nodes nodes = answer at h
  cases h with
  | atEnd takesLine => simp [Step.takesLine] at takesLine
  | collect descends =>
    obtain ⟨found, hfound, -⟩ := Answer.exists_of_ofResult hanswer.symm
    exact descends.stopsFor found hfound

/-- No line is left, since no line is as narrow as the parent of the roots. -/
theorem length_le_and_isSubtree {nodes : List Node} (h : r.Takes .document (.nodes nodes) r') :
    r'.lines.length ≤ r'.pos ∧ ∀ node ∈ nodes, node.IsSubtree := by
  generalize hanswer : Answer.nodes nodes = answer at h
  cases h with
  | atEnd takesLine => simp [Step.takesLine] at takesLine
  | document descends =>
    obtain ⟨found, hfound, rfl⟩ := Answer.exists_of_ofResult hanswer.symm
    have hroot : rootWidth < 0 := by decide
    refine ⟨?_, descends.isSubtree hroot (by simp [Level.under]) found hfound⟩
    rcases descends.stopsFor found hfound with hend | ⟨line, -, -, -, hwidth, -⟩
    · exact hend
    · have hparent : (line.width : Int) ≤ rootWidth := hwidth
      omega

end Takes

/-- A step of a reader of the given lines, its answer and the reader after it are in order. -/
structure Behaves (lines : List Text) (r : Reader) (s : Step) (answer : Answer) (r' : Reader) :
    Prop where
  /-- The step comes to an end, and in this way only. -/
  ends : ∀ answer' r'', r.Takes s answer' r'' ↔ answer' = answer ∧ r'' = r'
  /-- The reader stays within the file. -/
  bounded : r'.lines = lines ∧ r'.pos ≤ lines.length
  /-- Going back by a line lowers the place of the reader by one, and no other step lowers it. -/
  forward : if s = .unread then r'.pos + 1 = r.pos else r.pos ≤ r'.pos
  /-- The mark stays what it is. -/
  mark_eq : ∀ mark, r.mark = some mark → r'.mark = some mark
  /-- A fault leaves the reader behind the line at fault. -/
  failed : ∀ e, answer = .failed e → e.line = r'.pos ∧ r.pos < r'.pos
  /-- Nodes are collected up to a line that does not belong to them. -/
  collected : ∀ parent nodes, s = .collect parent → answer = .nodes nodes → r'.StopsFor parent
  /-- All lines are read, and the roots are lines. -/
  read : ∀ nodes, s = .document → answer = .nodes nodes →
    r'.pos = lines.length ∧ ∀ node ∈ nodes, node.IsSubtree

/-- A step that is allowed to the reader is in order. -/
theorem behaves_step {lines : List Text} {r : Reader} {s : Step}
    (hr : r.lines = lines ∧ r.pos ≤ lines.length) (hs : s = .unread → 0 < r.pos) :
    Behaves lines r s (r.step s).1 (r.step s).2 := by
  obtain ⟨rfl, hpos⟩ := hr
  have htakes := r.takes_step s
  have hends (answer : Answer) (r' : Reader) :
      r.Takes s answer r' ↔ answer = (r.step s).1 ∧ r' = (r.step s).2 := by
    rw [takes_iff, Prod.ext_iff, eq_comm, @eq_comm _ r']
  rcases eq_or_ne s .unread with rfl | hne
  · have hback : r.pos - 1 + 1 = r.pos := Nat.sub_add_cancel (hs rfl)
    refine ⟨hends, ⟨rfl, Nat.le_trans (Nat.sub_le ..) hpos⟩, ?_, fun _ => id, ?_, ?_, ?_⟩
    · rw [if_pos rfl]
      exact hback
    · rintro e ⟨⟩
    · rintro parent nodes ⟨⟩
    · rintro nodes ⟨⟩
  · have hadvances := htakes.advances hne
    have hbounded := hadvances.bounded hpos
    refine ⟨hends, ⟨hadvances.lines_eq, hbounded⟩, ?_, hadvances.mark_eq, ?_, ?_, ?_⟩
    · rw [if_neg hne]
      exact hadvances.pos_le
    · intro e he
      rw [he] at htakes
      exact htakes.line_eq_pos
    · rintro parent nodes rfl hnodes
      rw [hnodes] at htakes
      exact htakes.stopsFor
    · rintro nodes rfl hnodes
      rw [hnodes] at htakes
      obtain ⟨hend, hroots⟩ := htakes.length_le_and_isSubtree
      rw [hadvances.lines_eq] at hend
      exact ⟨Nat.le_antisymm hbounded hend, hroots⟩

/-! ### Runs -/

/-- The reader after steps taken one after the other. -/
def run (r : Reader) (ss : List Step) : Reader := ss.foldl (fun r s => (r.step s).2) r

/-- The steps are allowed one after the other: a reader at the beginning of the file does not go
back. -/
def Permits : Reader → List Step → Prop
  | _, [] => True
  | r, s :: ss => (s = .unread → 0 < r.pos) ∧ Permits (r.step s).2 ss

instance decidablePermits : (r : Reader) → (ss : List Step) → Decidable (r.Permits ss)
  | _, [] => inferInstanceAs (Decidable True)
  | r, s :: ss =>
    have : Decidable ((r.step s).2.Permits ss) := decidablePermits (r.step s).2 ss
    inferInstanceAs (Decidable ((s = .unread → 0 < r.pos) ∧ (r.step s).2.Permits ss))

theorem run_append (r : Reader) (front back : List Step) :
    r.run (front ++ back) = (r.run front).run back :=
  List.foldl_append

theorem permits_append {r : Reader} {front back : List Step} :
    r.Permits (front ++ back) ↔ r.Permits front ∧ (r.run front).Permits back := by
  induction front generalizing r with
  | nil => simp [Permits, run]
  | cons s front ih =>
    rw [List.cons_append, Permits, ih, Permits, and_assoc]
    rfl

/-- What is noted of a step in the middle of a run is its answer and the reader after it. -/
theorem getElem?_steps (r : Reader) (front : List Step) (s : Step) (back : List Step) :
    (r.steps (front ++ s :: back))[front.length]? = some ((r.run front).step s) := by
  induction front generalizing r with
  | nil => rfl
  | cons first front ih => exact ih (r.step first).2

/-- A run keeps the reader within the file, and keeps its mark. -/
theorem run_keeps {lines : List Text} {r : Reader} {ss : List Step}
    (hr : r.lines = lines ∧ r.pos ≤ lines.length) (hpermits : r.Permits ss) :
    ((r.run ss).lines = lines ∧ (r.run ss).pos ≤ lines.length) ∧
      ∀ mark, r.mark = some mark → (r.run ss).mark = some mark := by
  induction ss generalizing r with
  | nil => exact ⟨hr, fun _ => id⟩
  | cons s ss ih =>
    obtain ⟨hs, hpermits⟩ := hpermits
    have hstep := behaves_step hr hs
    obtain ⟨hrest, hmark⟩ := ih hstep.bounded hpermits
    exact ⟨hrest, fun mark h => hmark mark (hstep.mark_eq mark h)⟩

/-- **Every step of every run is in order**, also after steps that have failed: it ends, the
reader stays in the file and goes back only when it is told to, and a fault leaves it behind the
line at fault. The mark that the reader has after the step is the one it has at the end of the
run. -/
theorem steps_behave {lines : List Text} {filename : Text} {front back : List Step} {s : Step}
    (h : (start lines filename).Permits (front ++ s :: back)) :
    ∃ answer r', ((start lines filename).steps (front ++ s :: back))[front.length]? =
        some (answer, r') ∧
      Behaves lines ((start lines filename).run front) s answer r' ∧
      ∀ mark, r'.mark = some mark →
        ((start lines filename).run (front ++ s :: back)).mark = some mark := by
  have hstart : (start lines filename).lines = lines ∧ (start lines filename).pos ≤ lines.length :=
    ⟨rfl, Nat.zero_le _⟩
  obtain ⟨hfront, hs, hback⟩ := permits_append.mp h
  obtain ⟨hbefore, -⟩ := run_keeps hstart hfront
  have hstep := behaves_step hbefore hs
  refine ⟨_, _, getElem?_steps _ front s back, hstep, ?_⟩
  rw [run_append]
  exact (run_keeps hstep.bounded hback).2

/-- Reading fails at the third line, and the reader goes on from there, back and forth. -/
theorem steps_behave_after_fault :
    ((start (["a", "\tb", "  c", "d", "|e", "f"].map String.toList) []).run [.document]).pos = 3 ∧
      ∃ answer r',
        ((start (["a", "\tb", "  c", "d", "|e", "f"].map String.toList) []).steps
          [.document, .subtree, .unread, .next])[1]? = some (answer, r') ∧
        Behaves (["a", "\tb", "  c", "d", "|e", "f"].map String.toList)
          ((start (["a", "\tb", "  c", "d", "|e", "f"].map String.toList) []).run [.document])
          .subtree answer r' ∧
        ∀ mark, r'.mark = some mark →
          ((start (["a", "\tb", "  c", "d", "|e", "f"].map String.toList) []).run
            [.document, .subtree, .unread, .next]).mark = some mark := by
  have hpermits : (start (["a", "\tb", "  c", "d", "|e", "f"].map String.toList) []).Permits
      ([.document] ++ .subtree :: [.unread, .next]) := by decide +kernel
  exact ⟨by decide +kernel, steps_behave hpermits⟩

end Reader

end Offside
