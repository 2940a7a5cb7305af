import Offside.Compilation
import Offside.Proofs.Masking

/-!
# Signals

A parenthesised text is read physical line by physical line. A line loses the spaces and tabs in
front and its comment, and every other character gives one signal: a parenthesis opens or closes,
a space is a gap, and any other character stands for itself, as does every character of a string
literal. The end of a line is a gap.

The signals of a text that is put together are those of its parts, as far as the parts are what
records are made of: an indentation (`ofText_append_indent`), an opening parenthesis
(`ofText_opening`), a closing one behind a line without comment (`ofText_closing`), and texts on
lines of their own (`ofText_append_feed`). Stripping a text drops nothing but blank signals
(`exists_ofText_stripLeft`). So a record in parentheses has the signals of what is in them, between
an opening and a closing signal (`exists_ofText_wrap_true`).
-/

namespace Offside

/-! ### Physical lines -/

namespace Text

variable {sep : Char}

theorem pieces_ne_nil (s : Text) : pieces sep s ≠ [] := by
  induction s with
  | nil => simp [pieces]
  | cons c s ih =>
    rw [pieces]
    split
    · simp
    · cases h : pieces sep s <;> simp [consFirst]

theorem consFirst_append {xs : List Text} (h : xs ≠ []) (c : Char) (ys : List Text) :
    consFirst c (xs ++ ys) = consFirst c xs ++ ys := by
  cases xs with
  | nil => exact absurd rfl h
  | cons x xs => rfl

/-- A separator ends a piece. -/
theorem pieces_append_sep (s t : Text) :
    pieces sep (s ++ sep :: t) = pieces sep s ++ pieces sep t := by
  induction s with
  | nil => simp [pieces]
  | cons c s ih =>
    rw [List.cons_append, pieces, pieces]
    split
    · simp [ih]
    · rw [ih, consFirst_append (pieces_ne_nil s)]

theorem pieces_of_not_mem {s : Text} (h : sep ∉ s) : pieces sep s = [s] := by
  induction s with
  | nil => rfl
  | cons c s ih =>
    simp only [List.mem_cons, not_or] at h
    rw [pieces, if_neg (Ne.symm h.1), ih h.2]
    rfl

/-- A text has no separator, or it has a last one. -/
theorem not_mem_or_exists_last (sep : Char) (s : Text) :
    sep ∉ s ∨ ∃ front last, s = front ++ sep :: last ∧ sep ∉ last := by
  by_cases h : sep ∈ s
  · obtain ⟨last, front, hs, hlast⟩ := List.eq_append_cons_of_mem (List.mem_reverse.mpr h)
    refine .inr ⟨front.reverse, last.reverse, ?_, by simpa using hlast⟩
    rw [← List.reverse_reverse s, hs]
    simp
  · exact .inl h

theorem afterLast_of_not_mem {s : Text} (h : sep ∉ s) : afterLast sep s = s := by
  have hall : s.reverse.takeWhile (· != sep) = s.reverse :=
    List.takeWhile_eq_self_iff.mpr (bne_of_not_mem (by simpa using h))
  rw [afterLast, hall, List.reverse_reverse]

theorem afterLast_append_sep {last : Text} (h : sep ∉ last) (front : Text) :
    afterLast sep (front ++ sep :: last) = last := by
  have hall : ∀ c ∈ last.reverse, (c != sep) = true := bne_of_not_mem (by simpa using h)
  rw [afterLast, List.reverse_append, List.reverse_cons, List.append_assoc,
    List.takeWhile_append_of_pos hall]
  simp

theorem head?_dropWhile {p : Char → Bool} {s : Text} :
    ∀ c ∈ (s.dropWhile p).head?, p c = false := by
  intro c hc
  have hhead := List.head?_dropWhile_not p s
  rwa [Option.mem_def.mp hc] at hhead

end Text

theorem Line.isIndent_of_mem_indent (line : Line) : ∀ c ∈ line.indent, Line.isIndent c = true :=
  fun _ hc => List.mem_takeWhile_imp hc

theorem Node.records_eq_map (nodes : List Node) : Node.records nodes = nodes.map Node.record := by
  induction nodes with
  | nil => rfl
  | cons node nodes ih => rw [Node.records, ih, List.map_cons]

theorem Node.needsParens_map (f : Node → Node) (tokens : Int) (children : List Node) :
    Node.needsParens tokens (children.map f) = Node.needsParens tokens children := by
  rw [Node.needsParens, List.length_map, Node.needsParens]

/-! ### Signals of a line -/

/-- What a character of a parenthesised text says. -/
inductive Signal where
  | opening
  | closing
  | gap
  | char (c : Char)
  deriving DecidableEq, Repr

namespace Signal

/-- The signal of a character, of which `m` is the mask. -/
def ofChar (c m : Char) : Signal :=
  if m = '(' then opening else if m = ')' then closing else if m = ' ' then gap else char c

/-- The characters of a line up to its comment, each with its mask. -/
def visible (body : Text) : List (Char × Char) :=
  (body.zip (Literal.mask body)).takeWhile fun x => x.2 != Comment.marker

/-- The signals of a line without its indentation. -/
def ofBody (body : Text) : List Signal := (visible body).map fun x => ofChar x.1 x.2

/-- The signals of a physical line. -/
def ofLine (line : Text) : List Signal := ofBody (line.dropWhile Line.isIndent)

/-- The signals of a text, with a gap between two lines. -/
def ofText (text : Text) : List Signal :=
  List.intercalate [gap] ((Text.pieces '\n' text).map ofLine)

/-- The masks of the visible characters. -/
theorem map_snd_visible (body : Text) :
    (visible body).map Prod.snd = Comment.strip (Literal.mask body) := by
  have hmask : (body.zip (Literal.mask body)).map Prod.snd = Literal.mask body :=
    List.map_snd_zip (by simp)
  rw [Comment.strip_mask, ← hmask, List.takeWhile_map]
  rfl

/-- A part without quotes and semicolons in front keeps its signals. -/
theorem ofBody_append_left {s : Text} (hquote : '"' ∉ s) (hmarker : Comment.marker ∉ s)
    (t : Text) : ofBody (s ++ t) = s.map (fun c => ofChar c c) ++ ofBody t := by
  have hall : ∀ x ∈ s.zip s, (x.2 != Comment.marker) = true :=
    fun x hx => Text.bne_of_not_mem hmarker x.2 (List.of_mem_zip hx).2
  rw [ofBody, visible, Literal.mask_append_left hquote, List.zip_append rfl,
    List.takeWhile_append_of_pos hall, List.map_append, List.map_zip_eq_zipWith,
    List.zipWith_self]
  rfl

/-- A closing parenthesis behind a line without comment closes. -/
theorem ofBody_concat_closing {t : Text} (h : Comment.marker ∉ Literal.mask t) :
    ofBody (t ++ [')']) = ofBody t ++ [closing] := by
  have hall : ∀ x ∈ t.zip (Literal.mask t), (x.2 != Comment.marker) = true :=
    fun x hx => Text.bne_of_not_mem h x.2 (List.of_mem_zip hx).2
  rw [ofBody, visible, Literal.mask_append_right (by decide), List.zip_append (by simp),
    List.takeWhile_append_of_pos hall, List.map_append, ofBody, visible,
    List.takeWhile_eq_self_iff.mpr hall]
  rfl

theorem not_mem_indent {indent : Text} (h : ∀ c ∈ indent, Line.isIndent c = true) :
    '"' ∉ indent ∧ Comment.marker ∉ indent ∧ '\n' ∉ indent :=
  ⟨fun hc => absurd (h _ hc) (by decide), fun hc => absurd (h _ hc) (by decide),
    fun hc => absurd (h _ hc) (by decide)⟩

theorem ofLine_append_indent {indent : Text} (h : ∀ c ∈ indent, Line.isIndent c = true)
    (line : Text) : ofLine (indent ++ line) = ofLine line := by
  rw [ofLine, List.dropWhile_append_of_pos h, ofLine]

theorem ofLine_of_not_indent {line : Text} (h : ∀ c ∈ line.head?, Line.isIndent c = false) :
    ofLine line = ofBody line := by
  cases line with
  | nil => rfl
  | cons c line =>
    have hc : Line.isIndent c = false := h c rfl
    rw [ofLine, List.dropWhile_cons_of_neg (by simp [hc])]

theorem ofLine_concat_closing {line : Text} (h : Comment.start? line = none) :
    ofLine (line ++ [')']) = ofLine line ++ [closing] := by
  -- the indentation has no comment, so the rest of the line has none either
  have hsplit : line = line.takeWhile Line.isIndent ++ line.dropWhile Line.isIndent :=
    List.takeWhile_append_dropWhile.symm
  have hindent : ∀ c ∈ line.takeWhile Line.isIndent, Line.isIndent c = true :=
    fun c hc => List.mem_takeWhile_imp hc
  have hbody : Comment.marker ∉ Literal.mask (line.dropWhile Line.isIndent) := by
    rw [Comment.start?_eq_none_iff, hsplit, Literal.mask_append_left (not_mem_indent hindent).1,
      List.mem_append, not_or] at h
    exact h.2
  have hdrop : (line ++ [')']).dropWhile Line.isIndent = line.dropWhile Line.isIndent ++ [')'] := by
    rw [List.dropWhile_append]
    split
    · next hnil =>
      rw [List.isEmpty_iff.mp hnil]
      rfl
    · rfl
  rw [ofLine, hdrop, ofBody_concat_closing hbody, ofLine]

/-! ### Signals of a text -/

/-- Texts on lines of their own. -/
theorem ofText_append_feed (s t : Text) :
    ofText (s ++ '\n' :: t) = ofText s ++ gap :: ofText t := by
  rw [ofText, Text.pieces_append_sep, List.map_append]
  generalize hs : (Text.pieces '\n' s).map ofLine = ss
  generalize ht : (Text.pieces '\n' t).map ofLine = ts
  have hts : ts ≠ [] := by
    rw [← ht]
    simpa using Text.pieces_ne_nil t
  have hss : ss ≠ [] := by
    rw [← hs]
    simpa using Text.pieces_ne_nil s
  rw [ofText, ofText, hs, ht]
  clear hs ht
  induction ss with
  | nil => exact absurd rfl hss
  | cons first ss ih =>
    cases ss with
    | nil => rw [List.singleton_append, List.intercalate_cons_of_ne_nil hts]; simp
    | cons second ss =>
      rw [List.cons_append, List.cons_append, List.intercalate_cons_cons, ← List.cons_append,
        ih (by simp), List.intercalate_cons_cons]
      simp

theorem ofText_of_not_mem {s : Text} (h : '\n' ∉ s) : ofText s = ofLine s := by
  rw [ofText, Text.pieces_of_not_mem h, List.map_singleton, List.intercalate_singleton]

/-- The first line of a text can be taken apart from the others. -/
theorem exists_ofText_append (t : Text) :
    ∃ first rest, (∀ c ∈ first.head?, c ∈ t.head?) ∧
      ∀ s, '\n' ∉ s → ofText (s ++ t) = ofLine (s ++ first) ++ rest := by
  by_cases ht : '\n' ∈ t
  · obtain ⟨first, rest, rfl, hfirst⟩ := List.eq_append_cons_of_mem ht
    refine ⟨first, gap :: ofText rest, fun c hc => ?_, fun s hs => ?_⟩
    · cases first with
      | nil => simp at hc
      | cons d first => exact hc
    · rw [← List.append_assoc, ofText_append_feed, ofText_of_not_mem (by simp [hs, hfirst])]
  · refine ⟨t, [], fun c hc => hc, fun s hs => ?_⟩
    rw [ofText_of_not_mem (by simp [hs, ht]), List.append_nil]

/-- An indentation in front of a text does not show. -/
theorem ofText_append_indent {indent : Text} (h : ∀ c ∈ indent, Line.isIndent c = true)
    (t : Text) : ofText (indent ++ t) = ofText t := by
  obtain ⟨first, rest, -, hrest⟩ := exists_ofText_append t
  have ht := hrest [] (by simp)
  rw [List.nil_append, List.nil_append] at ht
  rw [hrest indent (not_mem_indent h).2.2, ofLine_append_indent h, ht]

/-- An opening parenthesis in front of a text that is not indented. -/
theorem ofText_opening {t : Text} (h : ∀ c ∈ t.head?, Line.isIndent c = false) :
    ofText ('(' :: t) = opening :: ofText t := by
  obtain ⟨first, rest, hfirst, hrest⟩ := exists_ofText_append t
  have ht := hrest [] (by simp)
  have hparen := hrest ['('] (by simp)
  rw [List.nil_append, List.nil_append] at ht
  rw [List.singleton_append, List.singleton_append] at hparen
  rw [ht, hparen, ofLine_of_not_indent (by simp [Line.isIndent]),
    ofLine_of_not_indent fun c hc => h c (hfirst c hc)]
  have hbody := ofBody_append_left (s := ['(']) (by decide) (by decide) first
  rw [List.singleton_append] at hbody
  rw [hbody]
  rfl

/-- A closing parenthesis behind a text whose last line has no comment. -/
theorem ofText_closing {t : Text} (h : Comment.start? (Text.afterLast '\n' t) = none) :
    ofText (t ++ [')']) = ofText t ++ [closing] := by
  rcases Text.not_mem_or_exists_last '\n' t with ht | ⟨front, last, rfl, hlast⟩
  · rw [Text.afterLast_of_not_mem ht] at h
    rw [ofText_of_not_mem (by simp [ht]), ofText_of_not_mem ht, ofLine_concat_closing h]
  · rw [Text.afterLast_append_sep hlast] at h
    have hlast' : '\n' ∉ last ++ [')'] := by simp [hlast]
    rw [List.append_assoc, List.cons_append, ofText_append_feed, ofText_append_feed,
      ofText_of_not_mem hlast', ofText_of_not_mem hlast, ofLine_concat_closing h]
    simp

/-! ### Blank signals -/

/-- A signal of a blank character or of a line break. -/
def IsBlank : Signal → Prop
  | gap => True
  | char c => Text.isBlank c = true
  | _ => False

theorem isBlank_ofChar {c : Char} (h : Text.isBlank c = true) : (ofChar c c).IsBlank := by
  have hopening : c ≠ '(' := fun hc => absurd (hc ▸ h) (by decide)
  have hclosing : c ≠ ')' := fun hc => absurd (hc ▸ h) (by decide)
  rw [ofChar, if_neg hopening, if_neg hclosing]
  split
  · trivial
  · exact h

theorem not_mem_of_isBlank {blanks : Text} (h : ∀ c ∈ blanks, Text.isBlank c = true) :
    '"' ∉ blanks ∧ Comment.marker ∉ blanks :=
  ⟨fun hc => absurd (h _ hc) (by decide), fun hc => absurd (h _ hc) (by decide)⟩

theorem isBlank_of_isIndent {c : Char} (h : Line.isIndent c = true) : Text.isBlank c = true := by
  simp only [Line.isIndent, Bool.or_eq_true, beq_iff_eq] at h
  rcases h with rfl | rfl <;> decide

theorem isIndent_eq_false_of_isBlank {c : Char} (h : Text.isBlank c = false) :
    Line.isIndent c = false := by
  cases hindent : Line.isIndent c with
  | false => rfl
  | true => rw [← isBlank_of_isIndent hindent, h]

/-- Without its indentation dropped, a line has blank signals in front. -/
theorem exists_ofBody_eq (line : Text) :
    ∃ blanks : List Signal, (∀ x ∈ blanks, x.IsBlank) ∧ ofBody line = blanks ++ ofLine line := by
  have hindent : ∀ c ∈ line.takeWhile Line.isIndent, Line.isIndent c = true :=
    fun c hc => List.mem_takeWhile_imp hc
  refine ⟨(line.takeWhile Line.isIndent).map fun c => ofChar c c, ?_, ?_⟩
  · simp only [List.mem_map]
    rintro _ ⟨c, hc, rfl⟩
    exact isBlank_ofChar (isBlank_of_isIndent (hindent c hc))
  · conv_lhs => rw [← List.takeWhile_append_dropWhile (p := Line.isIndent) (l := line)]
    rw [ofBody_append_left (not_mem_indent hindent).1 (not_mem_indent hindent).2.1, ofLine]

/-- Stripping a text drops nothing but blank signals. -/
theorem exists_ofText_stripLeft (t : Text) :
    ∃ blanks : List Signal, (∀ x ∈ blanks, x.IsBlank) ∧
      ofText t = blanks ++ ofText (Text.stripLeft t) := by
  induction t with
  | nil => exact ⟨[], by simp, rfl⟩
  | cons c t ih =>
    cases hc : Text.isBlank c with
    | false =>
      refine ⟨[], by simp, ?_⟩
      rw [Text.stripLeft, List.dropWhile_cons_of_neg (by simp [hc]), List.nil_append]
    | true =>
      obtain ⟨blanks, hblanks, ht⟩ := ih
      have hstrip : Text.stripLeft (c :: t) = Text.stripLeft t := by
        rw [Text.stripLeft, List.dropWhile_cons_of_pos hc, Text.stripLeft]
      rw [hstrip]
      by_cases hfeed : c = '\n'
      · -- a line with nothing on it
        subst hfeed
        refine ⟨gap :: blanks, by simpa [IsBlank] using hblanks, ?_⟩
        rw [← List.nil_append ('\n' :: t), ofText_append_feed, ht]
        rfl
      · obtain ⟨first, rest, -, hrest⟩ := exists_ofText_append t
        have hfirst := hrest [] (by simp)
        have hcons := hrest [c] (by simpa using Ne.symm hfeed)
        simp only [List.nil_append, List.singleton_append] at hfirst hcons
        cases hindent : Line.isIndent c with
        | true =>
          have hdrop : ofLine ([c] ++ first) = ofLine first :=
            ofLine_append_indent (by simpa using hindent) first
          rw [List.singleton_append] at hdrop
          exact ⟨blanks, hblanks, by rw [hcons, hdrop, ← hfirst, ht]⟩
        | false =>
          have hblank : ∀ d ∈ [c], Text.isBlank d = true := by simpa using hc
          obtain ⟨hquote, hmarker⟩ := not_mem_of_isBlank hblank
          obtain ⟨inner, hinner, hbody⟩ := exists_ofBody_eq first
          have hline : ofLine (c :: first) = ofChar c c :: inner ++ ofLine first := by
            rw [ofLine_of_not_indent (by simpa using hindent), ← List.singleton_append,
              ofBody_append_left hquote hmarker, hbody]
            rfl
          refine ⟨ofChar c c :: inner ++ blanks, ?_, ?_⟩
          · simp only [List.cons_append, List.mem_cons, List.mem_append]
            rintro x (rfl | hx | hx)
            · exact isBlank_ofChar hc
            · exact hinner x hx
            · exact hblanks x hx
          · rw [hcons, hline, List.append_assoc, ← hfirst, ht, List.append_assoc]

/-! ### Signals of a record -/

theorem ofText_wrap_false {indent : Text} (h : ∀ c ∈ indent, Line.isIndent c = true)
    (text : Text) : ofText (Record.wrap false indent text) = ofText text :=
  ofText_append_indent h text

/-- What is in parentheses is opened and closed, perhaps with a gap before it is closed. -/
theorem exists_ofText_wrap_true {indent text : Text}
    (hindent : ∀ c ∈ indent, Line.isIndent c = true)
    (htext : ∀ c ∈ text.head?, Line.isIndent c = false) :
    ∃ gaps : List Signal, (∀ x ∈ gaps, x = gap) ∧
      ofText (Record.wrap true indent text) = opening :: (ofText text ++ (gaps ++ [closing])) := by
  have hbody : ofText (indent ++ '(' :: text) = opening :: ofText text := by
    rw [ofText_append_indent hindent, ofText_opening htext]
  simp only [Record.wrap, if_true, Record.closing]
  cases hcomment : Comment.start? (Text.afterLast '\n' (indent ++ '(' :: text)) with
  | none =>
    refine ⟨[], by simp, ?_⟩
    rw [ofText_closing hcomment, hbody]
    rfl
  | some start =>
    -- the closing parenthesis stands on a line of its own
    refine ⟨[gap], by simp, ?_⟩
    rw [ofText_append_feed, hbody, ofText_append_indent hindent]
    rfl

theorem head?_content (line : Line) : ∀ c ∈ line.content.head?, Line.isIndent c = false :=
  Text.head?_dropWhile

/-- What a node puts behind its indentation is not indented. -/
theorem head?_inner (line : Line) (children : List Text) :
    ∀ c ∈ (Record.inner line children).head?, Line.isIndent c = false := by
  intro c hc
  rw [Record.inner] at hc
  split at hc
  · exact isIndent_eq_false_of_isBlank (Text.head?_dropWhile c hc)
  · split at hc
    · exact head?_content line c hc
    · cases hcontent : line.content with
      | nil =>
        simp only [hcontent, List.nil_append, List.head?_cons, Option.mem_def,
          Option.some.injEq] at hc
        subst hc
        rfl
      | cons d content =>
        simp only [hcontent, List.cons_append, List.head?_cons] at hc
        exact head?_content line c (by rw [hcontent]; exact hc)

end Signal

/-! ### Contents of lines -/

theorem Line.stripLeft_append_indent (line : Line) (text : Text) :
    Text.stripLeft (line.indent ++ text) = Text.stripLeft text :=
  List.dropWhile_append_of_pos fun c hc =>
    Signal.isBlank_of_isIndent (line.isIndent_of_mem_indent c hc)

theorem Line.indent_append_content (line : Line) : line.indent ++ line.content = line.text :=
  List.takeWhile_append_dropWhile

/-- A line with a place has a character that is neither blank nor in a comment. -/
theorem Line.exists_stripLeft_content {line : Line} (h : line.skipped = false) :
    ∃ c rest, Text.stripLeft line.content = c :: rest ∧ c ≠ Comment.marker := by
  simp only [Line.skipped, Bool.or_eq_false_iff, Line.isBlank, Line.isComment] at h
  obtain ⟨hblank, hcomment⟩ := h
  rw [← line.indent_append_content, line.stripLeft_append_indent] at hcomment
  cases hstrip : Text.stripLeft line.content with
  | nil =>
    have hall : ∀ c ∈ line.text, Text.isBlank c = true := by
      rw [← List.dropWhile_eq_nil_iff, ← line.indent_append_content]
      exact (line.stripLeft_append_indent _).trans hstrip
    exact absurd (List.all_eq_true.mpr hall) (by simp [hblank])
  | cons c rest => exact ⟨c, rest, rfl, by simpa [hstrip] using hcomment⟩

end Offside
