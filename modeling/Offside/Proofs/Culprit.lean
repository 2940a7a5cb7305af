import Mathlib.Data.Int.Order.Basic
import Offside.Proofs.Balance

/-!
# Where a diagnostic points

A diagnostic names a line of the file and a character on it, and that character is what is wrong
(`transpile_error_isCulprit`):

* for mixed indentation, the first indentation character of the line that is not the file's mark;
* for a width without a place, the first character behind the indentation;
* for mismatched parentheses, a parenthesis of the content without a partner, in front of the
  comment and in no string literal.

Parentheses are matched in a copy of the content, masked and cut off at the comment. Behind each
part of it, folding has matched all parentheses, or it has the outermost open group by the offset of
its opening parenthesis (`Behind`). Where it fails, the offset it gives is that of a parenthesis
without a partner (`exists_unpaired_of_foldFrom`), and what shows in the copy stands in the
content at the same offset.
-/

namespace Offside

/-! ### Parentheses without a partner -/

/-- The parentheses of a text match, where every character counts. -/
def Matched (s : Text) : Prop := StaysUp 0 s ∧ depth s = 0

/-- The parenthesis at an offset is the outermost one that a text opens and does not close. -/
structure Unclosed (s : Text) (offset : Nat) : Prop where
  opening : s[offset]? = some '('
  before : Matched (s.take offset)
  /-- No closing parenthesis is stray. -/
  staysUp : StaysUp 0 s
  /-- The group is never closed. -/
  inside : ∀ i, offset < i → i ≤ s.length → 0 < depth (s.take i)

/-- The parenthesis at an offset has no partner, and no fault comes before it. -/
inductive Unpaired (s : Text) : Nat → Char → Prop
  | stray {offset : Nat} (closing : s[offset]? = some ')') (before : Matched (s.take offset)) :
      Unpaired s offset ')'
  | unclosed {offset : Nat} (unclosed : Unclosed s offset) : Unpaired s offset '('

theorem depth_concat (s : Text) (c : Char) : depth (s ++ [c]) = depthStep (depth s) c := by
  rw [depth, List.foldl_append]
  rfl

theorem staysUp_concat {s : Text} {c : Char} :
    StaysUp 0 (s ++ [c]) ↔ StaysUp 0 s ∧ 0 ≤ depth (s ++ [c]) := by
  constructor
  · intro h
    have hend := h (s ++ [c]) (List.prefix_refl _)
    exact ⟨fun front hfront => h front (hfront.trans (List.prefix_append s [c])), by omega⟩
  · rintro ⟨hs, hend⟩ front hfront
    rcases List.prefix_concat_iff.mp hfront with rfl | hfront
    · omega
    · exact hs front hfront

theorem Matched.concat {s : Text} {c : Char} (h : Matched s) (hc : isParen c = false) :
    Matched (s ++ [c]) := by
  have hdepth : depth (s ++ [c]) = 0 := by rw [depth_concat, depthStep_of_not_isParen hc, h.2]
  exact ⟨staysUp_concat.mpr ⟨h.1, hdepth.ge⟩, hdepth⟩

/-- An opening parenthesis behind matched ones opens an outermost group. -/
theorem Matched.unclosed {s : Text} (h : Matched s) : Unclosed (s ++ ['(']) s.length := by
  have hdepth : depth (s ++ ['(']) = 1 := by
    rw [depth_concat, h.2]
    rfl
  refine ⟨by simp, by simpa using h, staysUp_concat.mpr ⟨h.1, by omega⟩, fun i hlt hle => ?_⟩
  rw [List.take_of_length_le (by simpa [Nat.add_one_le_iff] using hlt), hdepth]
  exact Int.one_pos

/-- A group stays open for as long as the depth does not get back to zero. -/
theorem Unclosed.concat {s : Text} {c : Char} {offset : Nat} (h : Unclosed s offset)
    (hdepth : 0 < depth (s ++ [c])) : Unclosed (s ++ [c]) offset := by
  obtain ⟨hlt, -⟩ := List.getElem?_eq_some_iff.mp h.opening
  refine ⟨?_, ?_, staysUp_concat.mpr ⟨h.staysUp, hdepth.le⟩, fun i hi hle => ?_⟩
  · rw [List.getElem?_append_left hlt, h.opening]
  · rw [List.take_append_of_le_length hlt.le]
    exact h.before
  · rcases Nat.lt_or_ge s.length i with hend | hin
    · rw [List.take_of_length_le (by simpa [Nat.add_one_le_iff] using hend)]
      exact hdepth
    · rw [List.take_append_of_le_length hin]
      exact h.inside i hi hin

theorem Unclosed.matched {s : Text} {offset : Nat} (h : Unclosed s offset) (hdepth : depth s = 1) :
    Matched (s ++ [')']) := by
  have hzero : depth (s ++ [')']) = 0 := by
    rw [depth_concat, hdepth]
    rfl
  exact ⟨staysUp_concat.mpr ⟨h.staysUp, hzero.ge⟩, hzero⟩

theorem Unpaired.getElem?_eq {s : Text} {offset : Nat} {c : Char} (h : Unpaired s offset c) :
    s[offset]? = some c ∧ isParen c = true := by
  cases h with
  | stray closing before => exact ⟨closing, rfl⟩
  | unclosed unclosed => exact ⟨unclosed.opening, rfl⟩

/-! ### Where folding fails -/

theorem eq_error_of_map_eq_error {ε α β : Type} {f : α → β} {x : Except ε α} {e : ε}
    (h : x.map f = .error e) : x = .error e := by
  cases x with
  | error e' => exact congrArg Except.error (Except.error.inj h)
  | ok a => exact absurd h (by simp [Except.map])

namespace Group

/-- What the state of folding says about the text behind it. -/
inductive Behind (front : Text) : Option (Nat × Nat) → Prop
  | between (matched : Matched front) : Behind front none
  | within {start inner : Nat} (unclosed : Unclosed front start)
      (depth_eq : depth front = inner + 1) : Behind front (some (start, inner))

/-- What folding knows is kept when an opening parenthesis is passed. -/
theorem Behind.opening {front : Text} {state : Option (Nat × Nat)} (h : Behind front state) :
    Behind (front ++ ['(']) (some (state.elim (front.length, 0) fun (start, inner) =>
      (start, inner + 1))) := by
  cases h with
  | between matched =>
    refine .within matched.unclosed ?_
    rw [depth_concat, matched.2]
    rfl
  | @within start inner unclosed depth_eq =>
    have hdepth : depth (front ++ ['(']) = inner + 1 + 1 := by
      rw [depth_concat, depth_eq]
      rfl
    exact .within (unclosed.concat (by omega)) (by simpa using hdepth)

theorem Behind.closing {front : Text} {start inner : Nat}
    (h : Behind front (some (start, inner + 1))) :
    Behind (front ++ [')']) (some (start, inner)) := by
  cases h with
  | within unclosed depth_eq =>
    have hdepth : depth (front ++ [')']) = inner + 1 := by
      rw [depth_concat, depth_eq, depthStep, if_neg (by decide), if_pos rfl]
      omega
    exact .within (unclosed.concat (by omega)) hdepth

theorem Behind.leave {front : Text} {start : Nat} (h : Behind front (some (start, 0))) :
    Behind (front ++ [')']) none := by
  cases h with
  | within unclosed depth_eq => exact .between (unclosed.matched (by simpa using depth_eq))

theorem Behind.other {front : Text} {state : Option (Nat × Nat)} {c : Char}
    (h : Behind front state) (hc : isParen c = false) : Behind (front ++ [c]) state := by
  cases h with
  | between matched => exact .between (matched.concat hc)
  | @within start inner unclosed depth_eq =>
    have hdepth : depth (front ++ [c]) = inner + 1 := by
      rw [depth_concat, depthStep_of_not_isParen hc, depth_eq]
    exact .within (unclosed.concat (by omega)) hdepth

/-- A fold that fails names a parenthesis without a partner. -/
theorem exists_unpaired_of_foldFrom {state : Option (Nat × Nat)} {s front : Text} {e : Mismatch}
    (hbehind : Behind front state) (h : foldFrom front.length state s = .error e) :
    ∃ c, Unpaired (front ++ s) e.offset c := by
  induction s generalizing front state with
  | nil =>
    rcases state with _ | ⟨start, inner⟩
    · exact absurd h (by simp [foldFrom])
    · obtain rfl := Except.error.inj h
      cases hbehind with
      | within unclosed _ => exact ⟨'(', by simpa using Unpaired.unclosed unclosed⟩
  | cons c s ih =>
    -- the character goes over to the text behind
    have hnext {state' : Option (Nat × Nat)} (hbehind' : Behind (front ++ [c]) state')
        (h' : foldFrom (front.length + 1) state' s = .error e) :
        ∃ c', Unpaired (front ++ c :: s) e.offset c' := by
      have hfound := ih hbehind' (by simpa using h')
      simpa using hfound
    by_cases hopening : c = '('
    · subst hopening
      refine hnext hbehind.opening ?_
      rcases state with _ | ⟨start, inner⟩ <;> simpa [foldFrom] using h
    by_cases hclosing : c = ')'
    · subst hclosing
      rcases state with _ | ⟨start, _ | inner⟩
      · obtain rfl := Except.error.inj h
        cases hbehind with
        | between matched => exact ⟨')', .stray (by simp) (by simpa using matched)⟩
      · exact hnext hbehind.leave (eq_error_of_map_eq_error h)
      · exact hnext hbehind.closing h
    · have hparen : isParen c = false := by simp [isParen, hopening, hclosing]
      refine hnext (hbehind.other hparen) ?_
      rcases state with _ | ⟨start, inner⟩
      · rw [foldFrom, if_neg hopening, if_neg hclosing] at h
        exact eq_error_of_map_eq_error h
      · simpa [foldFrom, hopening, hclosing] using h

theorem exists_unpaired_of_fold {s : Text} {e : Mismatch} (h : fold s = .error e) :
    ∃ c, Unpaired s e.offset c := by
  have hstart : Behind [] none := .between ⟨staysUp_nil.mpr le_rfl, rfl⟩
  exact exists_unpaired_of_foldFrom hstart h

end Group

/-- Tokens that cannot be counted have a parenthesis without a partner, in front of the comment. -/
theorem Token.exists_unpaired_of_count {content : Text} {e : Group.Mismatch}
    (h : Token.count content = .error e) :
    ∃ c, Unpaired (Comment.strip (Literal.mask content)) e.offset c :=
  Group.exists_unpaired_of_fold (eq_error_of_map_eq_error h)

/-- What shows of a content in front of its comment stands in the mask at the same offset, and all
comment markers up to there are in literals. -/
theorem Comment.getElem?_of_getElem?_strip_mask {content : Text} {offset : Nat} {c : Char}
    (h : (Comment.strip (Literal.mask content))[offset]? = some c) :
    (Literal.mask content)[offset]? = some c ∧
      ∀ i ≤ offset, content[i]? = some Comment.marker → Literal.Covers content i := by
  rw [Comment.strip_mask] at h
  obtain ⟨hlt, -⟩ := List.getElem?_eq_some_iff.mp h
  have hsame : ∀ i ≤ offset, ((Literal.mask content).takeWhile (· != Comment.marker))[i]? =
      (Literal.mask content)[i]? := by
    intro i hi
    have hfront := List.takeWhile_prefix (l := Literal.mask content) (· != Comment.marker)
    rw [List.prefix_iff_getElem?.mp hfront i (by omega), List.getElem?_eq_getElem]
  refine ⟨(hsame offset le_rfl).symm.trans h, fun i hi hmarker => ?_⟩
  by_contra hcovers
  have hshown : ((Literal.mask content).takeWhile (· != Comment.marker))[i]? =
      some Comment.marker := by
    rw [hsame i hi, Literal.getElem?_mask_of_not_covers hcovers, hmarker]
  simpa using List.mem_takeWhile_imp (List.mem_of_getElem? hshown)

/-! ### The character at fault -/

/-- The character at an offset of a line is what a fault of the line is about. -/
inductive IsCulprit (lines : List Text) (line : Line) : Fault → Nat → Char → Prop
  /-- The first indentation character of the line that is not the mark of the file. -/
  | foreign {offset : Nat} {c mark : Char} (mark_eq : firstMark lines = some mark)
      (char : line.indent[offset]? = some c) (ne : c ≠ mark)
      (before : ∀ d ∈ line.indent.take offset, d = mark) :
      IsCulprit lines line .mixedIndentation offset c
  /-- The first character of the line that does not indent. -/
  | misplaced {offset : Nat} {c : Char} (char : line.text[offset]? = some c)
      (visible : Line.isIndent c = false)
      (before : ∀ d ∈ line.text.take offset, Line.isIndent d = true) :
      IsCulprit lines line .inconsistentIndentation offset c
  /-- A parenthesis of the content, in no literal and in front of the comment, without a partner. -/
  | unpaired {offset : Nat} {c : Char} (char : line.content[offset]? = some c)
      (outside : ¬ Literal.Covers line.content offset)
      (code : ∀ i ≤ offset, line.content[i]? = some Comment.marker →
        Literal.Covers line.content i)
      (unpaired : Unpaired (Comment.strip (Literal.mask line.content)) offset c) :
      IsCulprit lines line .mismatchedParentheses (line.width + offset) c

theorem Line.getElem?_text_of_content {line : Line} {offset : Nat} {c : Char}
    (h : line.content[offset]? = some c) : line.text[line.width + offset]? = some c := by
  rw [← line.indent_append_content, Line.width, List.getElem?_append_right (by omega)]
  simpa using h

theorem Line.getElem?_text_of_indent {line : Line} {offset : Nat} {c : Char}
    (h : line.indent[offset]? = some c) : line.text[offset]? = some c := by
  obtain ⟨hlt, -⟩ := List.getElem?_eq_some_iff.mp h
  rw [← line.indent_append_content, List.getElem?_append_left hlt, h]

/-- The character at fault stands in the line. -/
theorem IsCulprit.getElem?_text {lines : List Text} {line : Line} {fault : Fault} {offset : Nat}
    {c : Char} (h : IsCulprit lines line fault offset c) : line.text[offset]? = some c := by
  cases h with
  | foreign _ char _ _ => exact Line.getElem?_text_of_indent char
  | misplaced char _ _ => exact char
  | unpaired char _ _ _ => exact Line.getElem?_text_of_content char

/-- A line that is refused has the character at fault. -/
theorem Refuses.exists_isCulprit {line : Line} {parent : Int} {nodes : List Node} {fault : Fault}
    {offset : Nat} (h : Refuses line parent nodes fault offset) (hs : line.skipped = false)
    (lines : List Text) : ∃ c, IsCulprit lines line fault offset c := by
  induction h with
  | misaligned =>
    obtain ⟨c, content, hcontent⟩ : ∃ c content, line.content = c :: content := by
      obtain ⟨c, rest, hstrip, -⟩ := Line.exists_stripLeft_content hs
      refine List.exists_cons_of_ne_nil fun hnil => ?_
      simp [hnil, Text.stripLeft] at hstrip
    have hvisible : Line.isIndent c = false := Signal.head?_content line c (by simp [hcontent])
    have hbefore : line.text.take line.width = line.indent := by
      rw [← line.indent_append_content, Line.width]
      exact List.take_left
    have hfirst : line.content[0]? = some c := by rw [hcontent, List.getElem?_cons_zero]
    refine ⟨c, .misplaced (Line.getElem?_text_of_content hfirst) hvisible ?_⟩
    rw [hbefore]
    exact line.isIndent_of_mem_indent
  | @mismatched parent nodes e fits count =>
    obtain ⟨c, hunpaired⟩ := Token.exists_unpaired_of_count count
    obtain ⟨hchar, hparen⟩ := hunpaired.getElem?_eq
    obtain ⟨hmask, hcode⟩ := Comment.getElem?_of_getElem?_strip_mask hchar
    have hplaceholder : c ≠ Literal.placeholder := fun heq => absurd hparen (by rw [heq]; decide)
    obtain ⟨htext, houtside⟩ := Literal.getElem?_of_getElem?_mask hmask hplaceholder
    exact ⟨c, .unpaired htext houtside hcode hunpaired⟩
  | deeper refuses ih => exact ih

/-- An indentation with a foreign character has the character at fault. -/
theorem exists_isCulprit_of_foreign? {front rest : List Text} {text : Text} {offset : Nat}
    (hs : (⟨text, front.length⟩ : Line).skipped = false)
    (h : Indentation.foreign? (firstMark front) (⟨text, front.length⟩ : Line).indent =
      some offset) :
    ∃ c, IsCulprit (front ++ text :: rest) ⟨text, front.length⟩ .mixedIndentation offset c := by
  rw [Indentation.foreign?, ← firstMark_concat_of_not_skipped hs] at h
  cases hmark : firstMark (front ++ [text]) with
  | none => simp [hmark] at h
  | some mark =>
    -- the mark is settled on the line, so the rest of the file does not matter
    have hfile : firstMark (front ++ text :: rest) = some mark := by
      rw [List.append_cons, firstMark_append, hmark, Option.some_or]
    rw [hmark] at h
    obtain ⟨hlt, hne, hbefore⟩ := List.findIdx?_eq_some_iff_getElem.mp h
    refine ⟨_, .foreign hfile (List.getElem?_eq_getElem hlt) (by simpa using hne) fun d hd => ?_⟩
    obtain ⟨i, hi, rfl⟩ := List.mem_take_iff_getElem.mp hd
    simpa using hbefore i (by omega)

/-- **A diagnostic points at what is wrong.** It names a line of the file and a column of that line,
and the character there is the one that the fault is about. -/
theorem transpile_error_isCulprit {lines : List Text} {filename : Text} {e : Diagnostic}
    (h : transpile lines filename = .error e) :
    1 ≤ e.line ∧ e.line ≤ lines.length ∧ lines[(e.line - 1).toNat]? = some e.source ∧
      1 ≤ e.column ∧ e.column ≤ e.source.length ∧
      ∃ c, e.source[(e.column - 1).toNat]? = some c ∧
        IsCulprit lines ⟨e.source, e.line - 1⟩ e.fault (e.column - 1).toNat c := by
  have hread := eq_error_of_map_eq_error h
  rcases exists_isOutline_or_faultAt lines with
    ⟨roots, hroots⟩ | ⟨front, text, rest, rfl, hs, roots, hroots, fault, offset, hfault⟩
  · rw [read_of_isOutline hroots] at hread
    exact absurd hread (by simp)
  rw [read_of_faultAt hroots hs hfault] at hread
  obtain rfl := Except.error.inj hread
  obtain ⟨c, hculprit⟩ : ∃ c,
      IsCulprit (front ++ text :: rest) ⟨text, front.length⟩ fault offset c := by
    cases hfault with
    | mixed foreign => exact exists_isCulprit_of_foreign? hs foreign
    | refused native refuses => exact refuses.exists_isCulprit hs _
  have hchar : text[offset]? = some c := hculprit.getElem?_text
  obtain ⟨hlt, -⟩ := List.getElem?_eq_some_iff.mp hchar
  have hindex : ((front.length : Int) + 1 - 1) = front.length := by omega
  have hcolumn : ((offset : Int) + 1 - 1).toNat = offset := by omega
  simp only [Line.diagnose, Line.number, hindex, hcolumn, List.length_append, List.length_cons,
    Int.toNat_natCast]
  exact ⟨by omega, by omega, by simp, by omega, by omega, c, hchar, hculprit⟩

/-- A group that is not closed, behind a literal with parentheses in it and a group that is. -/
theorem transpile_error_isCulprit_unclosed :
    let source := "\tg \")\\\"(\" (h) (i (j) ; )".toList
    let lines := ["f \"(\"".toList, source]
    transpile lines [] = .error ⟨.mismatchedParentheses, [], 2, 15, source⟩ ∧
      ∃ c, source[14]? = some c ∧ IsCulprit lines ⟨source, 1⟩ .mismatchedParentheses 14 c := by
  intro source lines
  have herror : transpile lines [] = .error ⟨.mismatchedParentheses, [], 2, 15, source⟩ := by
    decide +kernel
  exact ⟨herror, (transpile_error_isCulprit herror).2.2.2.2.2⟩

end Offside
